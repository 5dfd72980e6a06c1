import Mathlib.Algebra.Order.Ring.Int
import Mathlib.Data.Fintype.Basic
import Mathlib.Tactic.Ring
import WebRtc.Aecm.Suppression
import WebRtc.Lib.Machine

/-!
# The comfort noise (`ComfortNoise`, aecm_core_c.c:736-866)

| here | there |
| --- | --- |
| `kNoiseEstQDomain`, `kNoiseEstIncCount` | the constants of these names (aecm_core_c.c:90-91) |
| `kCosTable`, `kSinTable` | `WebRtcAecm_kCosTable`, `WebRtcAecm_kSinTable` (aecm_core.c:31-121) |
| `Noise`, `NoiseBin`      | the fields of `AecmCore` for it (aecm_core.h:78, :129-132), those of one bin together |
| `initNoise`              | the same fields in `WebRtcAecm_InitCore` (aecm_core.c:410, :450-466) |
| `increaseSeed`, `randUArray` | `IncreaseSeed`, `WebRtcSpl_RandUArray` (randomization_functions.c:93-110) |
| `addSatW16`              | `WebRtcSpl_AddSatW16` (spl_inl.h:76) |
| `track`, `settle`, `shapeNoise` | the bodies of the loops at :769, :828 and :848 |

Every 32-bit intermediate is `checked32`, and a table is read only inside, so a call that has a result
is one without overflow. The estimate is clamped only when its upper 15 bits in the Q-domain of the
block are full, which leaves room for the fraction below them: it stays below `32768 << 15`
(`comfortNoise_bounded`), but not below `32767 << 15` (`not_clamped`).
-/

namespace WebRtc.Aecm

open CInt Machine

abbrev kNoiseEstQDomain : Nat := 15
abbrev kNoiseEstIncCount : Int := 5

def kCosTable : List Int :=
  [8192, 8190, 8187, 8180, 8172, 8160, 8147, 8130, 8112, 8091, 8067, 8041, 8012, 7982, 7948, 7912, 7874, 7834, 7791,
   7745, 7697, 7647, 7595, 7540, 7483, 7424, 7362, 7299, 7233, 7164, 7094, 7021, 6947, 6870, 6791, 6710, 6627, 6542,
   6455, 6366, 6275, 6182, 6087, 5991, 5892, 5792, 5690, 5586, 5481, 5374, 5265, 5155, 5043, 4930, 4815, 4698, 4580,
   4461, 4341, 4219, 4096, 3971, 3845, 3719, 3591, 3462, 3331, 3200, 3068, 2935, 2801, 2667, 2531, 2395, 2258, 2120,
   1981, 1842, 1703, 1563, 1422, 1281, 1140, 998, 856, 713, 571, 428, 285, 142, 0, -142, -285, -428, -571, -713, -856,
   -998, -1140, -1281, -1422, -1563, -1703, -1842, -1981, -2120, -2258, -2395, -2531, -2667, -2801, -2935, -3068,
   -3200, -3331, -3462, -3591, -3719, -3845, -3971, -4095, -4219, -4341, -4461, -4580, -4698, -4815, -4930, -5043,
   -5155, -5265, -5374, -5481, -5586, -5690, -5792, -5892, -5991, -6087, -6182, -6275, -6366, -6455, -6542, -6627,
   -6710, -6791, -6870, -6947, -7021, -7094, -7164, -7233, -7299, -7362, -7424, -7483, -7540, -7595, -7647, -7697,
   -7745, -7791, -7834, -7874, -7912, -7948, -7982, -8012, -8041, -8067, -8091, -8112, -8130, -8147, -8160, -8172,
   -8180, -8187, -8190, -8191, -8190, -8187, -8180, -8172, -8160, -8147, -8130, -8112, -8091, -8067, -8041, -8012,
   -7982, -7948, -7912, -7874, -7834, -7791, -7745, -7697, -7647, -7595, -7540, -7483, -7424, -7362, -7299, -7233,
   -7164, -7094, -7021, -6947, -6870, -6791, -6710, -6627, -6542, -6455, -6366, -6275, -6182, -6087, -5991, -5892,
   -5792, -5690, -5586, -5481, -5374, -5265, -5155, -5043, -4930, -4815, -4698, -4580, -4461, -4341, -4219, -4096,
   -3971, -3845, -3719, -3591, -3462, -3331, -3200, -3068, -2935, -2801, -2667, -2531, -2395, -2258, -2120, -1981,
   -1842, -1703, -1563, -1422, -1281, -1140, -998, -856, -713, -571, -428, -285, -142, 0, 142, 285, 428, 571, 713, 856,
   998, 1140, 1281, 1422, 1563, 1703, 1842, 1981, 2120, 2258, 2395, 2531, 2667, 2801, 2935, 3068, 3200, 3331, 3462,
   3591, 3719, 3845, 3971, 4095, 4219, 4341, 4461, 4580, 4698, 4815, 4930, 5043, 5155, 5265, 5374, 5481, 5586, 5690,
   5792, 5892, 5991, 6087, 6182, 6275, 6366, 6455, 6542, 6627, 6710, 6791, 6870, 6947, 7021, 7094, 7164, 7233, 7299,
   7362, 7424, 7483, 7540, 7595, 7647, 7697, 7745, 7791, 7834, 7874, 7912, 7948, 7982, 8012, 8041, 8067, 8091, 8112,
   8130, 8147, 8160, 8172, 8180, 8187, 8190]

def kSinTable : List Int :=
  [0, 142, 285, 428, 571, 713, 856, 998, 1140, 1281, 1422, 1563, 1703, 1842, 1981, 2120, 2258, 2395, 2531, 2667, 2801,
   2935, 3068, 3200, 3331, 3462, 3591, 3719, 3845, 3971, 4095, 4219, 4341, 4461, 4580, 4698, 4815, 4930, 5043, 5155,
   5265, 5374, 5481, 5586, 5690, 5792, 5892, 5991, 6087, 6182, 6275, 6366, 6455, 6542, 6627, 6710, 6791, 6870, 6947,
   7021, 7094, 7164, 7233, 7299, 7362, 7424, 7483, 7540, 7595, 7647, 7697, 7745, 7791, 7834, 7874, 7912, 7948, 7982,
   8012, 8041, 8067, 8091, 8112, 8130, 8147, 8160, 8172, 8180, 8187, 8190, 8191, 8190, 8187, 8180, 8172, 8160, 8147,
   8130, 8112, 8091, 8067, 8041, 8012, 7982, 7948, 7912, 7874, 7834, 7791, 7745, 7697, 7647, 7595, 7540, 7483, 7424,
   7362, 7299, 7233, 7164, 7094, 7021, 6947, 6870, 6791, 6710, 6627, 6542, 6455, 6366, 6275, 6182, 6087, 5991, 5892,
   5792, 5690, 5586, 5481, 5374, 5265, 5155, 5043, 4930, 4815, 4698, 4580, 4461, 4341, 4219, 4096, 3971, 3845, 3719,
   3591, 3462, 3331, 3200, 3068, 2935, 2801, 2667, 2531, 2395, 2258, 2120, 1981, 1842, 1703, 1563, 1422, 1281, 1140,
   998, 856, 713, 571, 428, 285, 142, 0, -142, -285, -428, -571, -713, -856, -998, -1140, -1281, -1422, -1563, -1703,
   -1842, -1981, -2120, -2258, -2395, -2531, -2667, -2801, -2935, -3068, -3200, -3331, -3462, -3591, -3719, -3845,
   -3971, -4095, -4219, -4341, -4461, -4580, -4698, -4815, -4930, -5043, -5155, -5265, -5374, -5481, -5586, -5690,
   -5792, -5892, -5991, -6087, -6182, -6275, -6366, -6455, -6542, -6627, -6710, -6791, -6870, -6947, -7021, -7094,
   -7164, -7233, -7299, -7362, -7424, -7483, -7540, -7595, -7647, -7697, -7745, -7791, -7834, -7874, -7912, -7948,
   -7982, -8012, -8041, -8067, -8091, -8112, -8130, -8147, -8160, -8172, -8180, -8187, -8190, -8191, -8190, -8187,
   -8180, -8172, -8160, -8147, -8130, -8112, -8091, -8067, -8041, -8012, -7982, -7948, -7912, -7874, -7834, -7791,
   -7745, -7697, -7647, -7595, -7540, -7483, -7424, -7362, -7299, -7233, -7164, -7094, -7021, -6947, -6870, -6791,
   -6710, -6627, -6542, -6455, -6366, -6275, -6182, -6087, -5991, -5892, -5792, -5690, -5586, -5481, -5374, -5265,
   -5155, -5043, -4930, -4815, -4698, -4580, -4461, -4341, -4219, -4096, -3971, -3845, -3719, -3591, -3462, -3331,
   -3200, -3068, -2935, -2801, -2667, -2531, -2395, -2258, -2120, -1981, -1842, -1703, -1563, -1422, -1281, -1140,
   -998, -856, -713, -571, -428, -285, -142]

structure NoiseBin where
  est : Int
  tooLowCtr : Int
  tooHighCtr : Int
deriving DecidableEq, Repr

structure Noise where
  bins : Bin → NoiseBin
  ctr : Int
  seed : Int

/-- `tmp16` and `tmp32` after so many bins of the loop that shapes the initial level. -/
def pinkNoise : Nat → Int × Int
  | 0 => (257, 257 * 257)
  | n + 1 =>
    let t := pinkNoise n
    (t.1 - 1, t.2 - ((t.1 - 1) * 2 + 1))

def initNoise : Noise where
  bins := fun i => ⟨(pinkNoise (min i.val (partLen1 / 2 - 1))).2 * 256, 0, 0⟩
  ctr := 0
  seed := 666

/-- What a call is given: the spectrum, the gains, the Q-domain and the bins the noise is added to. -/
structure NoiseBlock where
  dfa : Bins
  lambda : Bins
  dfaCleanQDomain : Nat
  out : Spectrum
  dfa_range : ∀ i, 0 ≤ dfa i ∧ dfa i ≤ 65535
  lambda_range : ∀ i, InQ14 (lambda i)
  qDomain_le : dfaCleanQDomain ≤ kNoiseEstQDomain

def NoiseBlock.shiftFromNearToNoise (b : NoiseBlock) : Nat := kNoiseEstQDomain - b.dfaCleanQDomain

/-- The values of all bins, when every bin has one. -/
def gather {α : Type} (f : Bin → Option α) : Option (Bin → α) :=
  if h : ∀ i, (f i).isSome then some fun i => (f i).get (h i) else none

/-- Reading a table at an index. -/
def entry (table : List Int) (i : Int) : Option Int := if 0 ≤ i then table[i.toNat]? else none

/-- The estimate of a bin after a block with this minimum shift and this shifted spectrum. -/
def track (minTrackShift : Nat) (outLShift32 : Int) (b : NoiseBin) : Option NoiseBin :=
  if outLShift32 < b.est then
    if b.est < 2 ^ minTrackShift then
      if b.tooHighCtr + 1 ≥ kNoiseEstIncCount then some ⟨b.est - 1, 0, 0⟩ else some ⟨b.est, 0, b.tooHighCtr + 1⟩
    else do
      let above ← checked32 (b.est - outLShift32)
      let est ← checked32 (b.est - above / 2 ^ minTrackShift)
      some ⟨est, 0, b.tooHighCtr⟩
  else if b.est / 524288 > 0 then do
    let est ← checked32 (b.est / 2048 * 2049)
    some ⟨est, b.tooLowCtr, 0⟩
  else if b.est / 2048 > 0 then do
    let product ← checked32 (b.est * 2049)
    some ⟨product / 2048, b.tooLowCtr, 0⟩
  else if b.tooLowCtr + 1 ≥ kNoiseEstIncCount then do
    let est ← checked32 (b.est + (b.est / 512 + 1))
    some ⟨est, 0, 0⟩
  else some ⟨b.est, b.tooLowCtr + 1, 0⟩

/-- The clamped estimate of a bin and its `noiseRShift16`. -/
def settle (shift : Nat) (lambda : Int) (b : NoiseBin) : Option (NoiseBin × Int) := do
  let clamped ← if b.est / 2 ^ shift > 32767 then
      (checked32 (32767 * 2 ^ shift)).map fun est => ({ b with est := est }, 32767)
    else some (b, b.est / 2 ^ shift)
  let product ← checked32 (i16 (oneQ14 - lambda) * i16 clamped.2)
  some (clamped.1, i16 (product / 16384))

/-- `kMaxSeedUsed` is a power of two. -/
def increaseSeed (seed : Int) : Int := u32 (seed * 69069 + 1) % 2147483648

/-- The array and the seed behind it. -/
def randUArray : Nat → Int → List Int × Int
  | 0, seed => ([], seed)
  | n + 1, seed =>
    let rest := randUArray n (increaseSeed seed)
    (i16 (increaseSeed seed / 65536) :: rest.1, rest.2)

def tableIndex (rand : Int) : Int := i16 (359 * rand / 32768)

/-- `uReal[i]` and `uImag[i]`. -/
def shapeNoise (randW16 : List Int) (noiseRShift16 : Int) (i : Bin) : Option ComplexInt16 :=
  if i.val = 0 then some ⟨0, 0⟩
  else do
    let rand ← randW16[i.val - 1]?
    let _ ← checked32 (359 * rand)
    let cos ← entry kCosTable (tableIndex rand)
    let sin ← entry kSinTable (tableIndex rand)
    let real ← checked32 (noiseRShift16 * cos)
    let imag ← checked32 (-noiseRShift16 * sin)
    some ⟨i16 (real / 8192), if i.val = partLen then 0 else i16 (imag / 8192)⟩

def addSatW16 (a b : Int) : Int := if a + b > 32767 then 32767 else if a + b < -32768 then -32768 else a + b

/-- What a call leaves behind, with two of its local arrays. -/
structure NoiseCall where
  noise : Noise
  noiseRShift16 : Bins
  randW16 : List Int
  out : Spectrum

def comfortNoise (s : Noise) (b : NoiseBlock) : Option NoiseCall := do
  let shift := b.shiftFromNearToNoise
  let minTrackShift := if s.ctr < 100 then 6 else 9
  let tracked ← gather fun i => do
    let outLShift32 ← checked32 (b.dfa i * 2 ^ shift)
    track minTrackShift outLShift32 (s.bins i)
  let settled ← gather fun i => settle shift (b.lambda i) (tracked i)
  let rand := randUArray partLen s.seed
  let u ← gather fun i => shapeNoise rand.1 (settled i).2 i
  some {
    noise := ⟨fun i => (settled i).1, if s.ctr < 100 then s.ctr + 1 else s.ctr, rand.2⟩
    noiseRShift16 := fun i => (settled i).2
    randW16 := rand.1
    out := fun i => ⟨addSatW16 (b.out i).real (u i).real, addSatW16 (b.out i).imag (u i).imag⟩ }

/-- The function with its result, if it has one. -/
def noiseStep (s : Noise) (b : NoiseBlock) : Noise × Option NoiseCall :=
  match comfortNoise s b with
  | some c => (c.noise, some c)
  | none => (s, none)

/-! ## One bin -/

theorem gather_eq {α : Type} {f : Bin → Option α} {g : Bin → α} (h : ∀ i, f i = some (g i)) : gather f = some g := by
  have hsome : ∀ i, (f i).isSome := fun i => by rw [h i]; rfl
  rw [gather, dif_pos hsome]
  congr 1
  funext i
  simp only [h i, Option.get_some]

/-- The values of bins that each have one with a property. -/
theorem gather_spec {α : Type} {f : Bin → Option α} {P : Bin → α → Prop} (h : ∀ i, ∃ x, f i = some x ∧ P i x) :
    ∃ g, gather f = some g ∧ ∀ i, f i = some (g i) ∧ P i (g i) := by
  choose g hg using h
  exact ⟨g, gather_eq fun i => (hg i).1, hg⟩

/-- No estimate is beyond what 15 bits above the largest shift hold. -/
def NoiseBin.Fits (b : NoiseBin) : Prop := 0 ≤ b.est ∧ b.est < 1073741824

theorem track_spec {m : Nat} (hm : m = 6 ∨ m = 9) {x : Int} (hx : 0 ≤ x) {b : NoiseBin} (hb : b.Fits) :
    ∃ t, track m x b = some t ∧ 0 ≤ t.est ∧ t.est < 2147483648 := by
  obtain ⟨hlo, hhi⟩ := hb
  unfold track
  split
  · split
    · next hbelow hsmall =>
      split
      · exact ⟨_, rfl, by dsimp only; omega, by dsimp only; omega⟩
      · exact ⟨_, rfl, hlo, by dsimp only; omega⟩
    · next hbelow hlarge =>
      have habove : checked32 (b.est - x) = some (b.est - x) := checked32_eq (by omega) (by omega)
      have hdown : 0 ≤ (b.est - x) / 2 ^ m ∧ (b.est - x) / 2 ^ m ≤ b.est - x := by
        rcases hm with rfl | rfl
        · omega
        · omega
      have hest : checked32 (b.est - (b.est - x) / 2 ^ m) = some (b.est - (b.est - x) / 2 ^ m) :=
        checked32_eq (by omega) (by omega)
      simp only [habove, hest, Option.bind_eq_bind, Option.bind_some]
      exact ⟨_, rfl, by dsimp only; omega, by dsimp only; omega⟩
  · split
    · have hest : checked32 (b.est / 2048 * 2049) = some (b.est / 2048 * 2049) := checked32_eq (by omega) (by omega)
      simp only [hest, Option.bind_eq_bind, Option.bind_some]
      exact ⟨_, rfl, by dsimp only; omega, by dsimp only; omega⟩
    · split
      · have hproduct : checked32 (b.est * 2049) = some (b.est * 2049) := checked32_eq (by omega) (by omega)
        simp only [hproduct, Option.bind_eq_bind, Option.bind_some]
        exact ⟨_, rfl, by dsimp only; omega, by dsimp only; omega⟩
      · split
        · have hest : checked32 (b.est + (b.est / 512 + 1)) = some (b.est + (b.est / 512 + 1)) :=
            checked32_eq (by omega) (by omega)
          simp only [hest, Option.bind_eq_bind, Option.bind_some]
          exact ⟨_, rfl, by dsimp only; omega, by dsimp only; omega⟩
        · exact ⟨_, rfl, hlo, by dsimp only; omega⟩

/-- An estimate whose upper bits fit is left alone, any other is set to the clamp. -/
theorem settle_eq {shift : Nat} (hs : shift ≤ 15) {lambda : Int} (hl : InQ14 lambda) {b : NoiseBin}
    (hlo : 0 ≤ b.est) :
    ∃ n, 0 ≤ n ∧ n ≤ 32767 ∧ settle shift lambda b =
      some (if b.est < 32768 * 2 ^ shift then b else { b with est := 32767 * 2 ^ shift }, n) := by
  have hpos : (1 : Int) ≤ 2 ^ shift := one_le_pow₀ (by omega)
  have hle : (2 : Int) ^ shift ≤ 32768 := by
    have hmono : (2 : Int) ^ shift ≤ 2 ^ 15 := pow_le_pow_right₀ (by omega) hs
    omega
  have hclamp : b.est / 2 ^ shift < 32768 ↔ b.est < 32768 * 2 ^ shift := Int.ediv_lt_iff_lt_mul (by omega)
  have hnoise (v : Int) (h0 : 0 ≤ v) (h1 : v ≤ 32767) :
      0 ≤ i16 (i16 (oneQ14 - lambda) * i16 v / 16384) ∧ i16 (i16 (oneQ14 - lambda) * i16 v / 16384) ≤ 32767 ∧
        checked32 (i16 (oneQ14 - lambda) * i16 v) = some (i16 (oneQ14 - lambda) * i16 v) := by
    unfold InQ14 oneQ14 at *
    rw [i16_id (x := v) (by omega) h1, i16_id (x := 16384 - lambda) (by omega) (by omega)]
    have hnonneg : 0 ≤ (16384 - lambda) * v := Int.mul_nonneg (by omega) h0
    have hbound : (16384 - lambda) * v ≤ 16384 * 32767 := Int.mul_le_mul (by omega) h1 h0 (by omega)
    rw [i16_id (by omega) (by omega)]
    exact ⟨by omega, by omega, checked32_eq (by omega) (by omega)⟩
  unfold settle
  by_cases hfits : b.est < 32768 * 2 ^ shift
  · have hupper := hclamp.2 hfits
    obtain ⟨hn0, hn1, hproduct⟩ := hnoise (b.est / 2 ^ shift) (Int.ediv_nonneg hlo (by omega)) (by omega)
    rw [if_neg (by omega), if_pos hfits]
    exact ⟨_, hn0, hn1, by simp only [Option.bind_eq_bind, Option.bind_some, hproduct]⟩
  · have hupper := fun h => hfits (hclamp.1 h)
    obtain ⟨hn0, hn1, hproduct⟩ := hnoise 32767 (by omega) (by omega)
    have hest : checked32 (32767 * 2 ^ shift) = some (32767 * 2 ^ shift) := checked32_eq (by omega) (by omega)
    rw [if_pos (by omega), if_neg hfits, hest]
    exact ⟨_, hn0, hn1, by simp only [Option.map_some, Option.bind_eq_bind, Option.bind_some, hproduct]⟩

/-! ## The random noise -/

theorem randUArray_range (n : Nat) (seed : Int) :
    (randUArray n seed).1.length = n ∧ ∀ x ∈ (randUArray n seed).1, 0 ≤ x ∧ x ≤ 32767 := by
  induction n generalizing seed with
  | zero => exact ⟨rfl, fun x hx => by cases hx⟩
  | succ n ih =>
    obtain ⟨hlen, hall⟩ := ih (increaseSeed seed)
    have hseed : 0 ≤ increaseSeed seed ∧ increaseSeed seed < 2147483648 := by
      unfold increaseSeed u32
      omega
    refine ⟨by simp only [randUArray, List.length_cons, hlen], ?_⟩
    intro x hx
    rcases List.mem_cons.1 hx with rfl | hx
    · rw [i16_id (by omega) (by omega)]
      omega
    · exact hall x hx

theorem tableIndex_range {x : Int} (h : 0 ≤ x ∧ x ≤ 32767) : 0 ≤ tableIndex x ∧ tableIndex x ≤ 359 := by
  rw [tableIndex, i16_id (by omega) (by omega)]
  omega

theorem tables_range : (∀ x ∈ kCosTable, -8192 ≤ x ∧ x ≤ 8192) ∧ (∀ x ∈ kSinTable, -8192 ≤ x ∧ x ≤ 8192) ∧
    kCosTable.length = 360 ∧ kSinTable.length = 360 := by decide +kernel

theorem entry_spec {table : List Int} (hlen : table.length = 360) (hall : ∀ x ∈ table, -8192 ≤ x ∧ x ≤ 8192)
    {i : Int} (hi : 0 ≤ i ∧ i ≤ 359) : ∃ x, entry table i = some x ∧ -8192 ≤ x ∧ x ≤ 8192 := by
  have hlt : i.toNat < table.length := by omega
  refine ⟨table[i.toNat], ?_, hall _ (List.getElem_mem hlt)⟩
  rw [entry, if_pos hi.1, List.getElem?_eq_getElem hlt]

theorem product_range {n x : Int} (hn : 0 ≤ n ∧ n ≤ 32767) (hx : -8192 ≤ x ∧ x ≤ 8192) :
    -268427264 ≤ n * x ∧ n * x ≤ 268427264 := by
  constructor
  · nlinarith
  · nlinarith

theorem shapeNoise_spec {randW16 : List Int} (hlen : randW16.length = partLen) (hall : ∀ x ∈ randW16, 0 ≤ x ∧ x ≤ 32767)
    {n : Int} (hn : 0 ≤ n ∧ n ≤ 32767) (i : Bin) : ∃ u, shapeNoise randW16 n i = some u := by
  unfold shapeNoise
  split
  · exact ⟨_, rfl⟩
  · next hi =>
    have hlt : i.val - 1 < randW16.length := by
      have hbin := i.isLt
      unfold partLen partLen1 at *
      omega
    have hrand := hall _ (List.getElem_mem hlt)
    generalize hr : randW16[i.val - 1] = rand at hrand
    have hindex := tableIndex_range hrand
    obtain ⟨cos, hcos, hc⟩ := entry_spec tables_range.2.2.1 tables_range.1 hindex
    obtain ⟨sin, hsin, hs⟩ := entry_spec tables_range.2.2.2 tables_range.2.1 hindex
    have hreal := product_range hn hc
    have himag := product_range hn hs
    have hneg : -n * sin = -(n * sin) := Int.neg_mul n sin
    have h359 : checked32 (359 * rand) = some (359 * rand) := checked32_eq (by omega) (by omega)
    have hre : checked32 (n * cos) = some (n * cos) := checked32_eq (by omega) (by omega)
    have him : checked32 (-n * sin) = some (-n * sin) := checked32_eq (by omega) (by omega)
    simp only [List.getElem?_eq_getElem hlt, hr, h359, hcos, hsin, hre, him, Option.bind_eq_bind, Option.bind_some]
    exact ⟨_, rfl⟩

/-! ## One call -/

def Noise.minTrackShift (s : Noise) : Nat := if s.ctr < 100 then 6 else 9

theorem Noise.minTrackShift_eq (s : Noise) : s.minTrackShift = 6 ∨ s.minTrackShift = 9 := by
  unfold Noise.minTrackShift
  split
  · exact .inl rfl
  · exact .inr rfl

/-- What a call computes for each bin. -/
def NoiseCall.Follows (c : NoiseCall) (s : Noise) (b : NoiseBlock) : Prop :=
  ∀ i, ∃ t, track s.minTrackShift (b.dfa i * 2 ^ b.shiftFromNearToNoise) (s.bins i) = some t ∧
    settle b.shiftFromNearToNoise (b.lambda i) t = some (c.noise.bins i, c.noiseRShift16 i)

/-- The estimates are not negative and fit 15 bits above the shift, the rest is in its range. -/
def NoiseCall.Bounded (c : NoiseCall) (b : NoiseBlock) : Prop :=
  (∀ i, 0 ≤ (c.noise.bins i).est ∧ (c.noise.bins i).est < 32768 * 2 ^ b.shiftFromNearToNoise) ∧
  (∀ i, 0 ≤ c.noiseRShift16 i ∧ c.noiseRShift16 i ≤ 32767) ∧
  ∀ x ∈ c.randW16, 0 ≤ tableIndex x ∧ tableIndex x ≤ 359

theorem two_pow_shift (b : NoiseBlock) :
    1 ≤ (2 : Int) ^ b.shiftFromNearToNoise ∧ (2 : Int) ^ b.shiftFromNearToNoise ≤ 32768 := by
  have hmono : (2 : Int) ^ b.shiftFromNearToNoise ≤ 2 ^ 15 := pow_le_pow_right₀ (by omega) (Nat.sub_le _ _)
  exact ⟨one_le_pow₀ (by omega), hmono⟩

/-- **A call from estimates that fit has a result.** -/
theorem comfortNoise_spec {s : Noise} (hs : ∀ i, (s.bins i).Fits) (b : NoiseBlock) :
    ∃ c, comfortNoise s b = some c ∧ c.Follows s b ∧ c.Bounded b ∧
      c.noise.ctr = if s.ctr < 100 then s.ctr + 1 else s.ctr := by
  obtain ⟨hpow, hpow'⟩ := two_pow_shift b
  obtain ⟨tracked, htracked, ht⟩ := gather_spec (f := fun i => do
      let outLShift32 ← checked32 (b.dfa i * 2 ^ b.shiftFromNearToNoise)
      track s.minTrackShift outLShift32 (s.bins i))
    (P := fun i t => track s.minTrackShift (b.dfa i * 2 ^ b.shiftFromNearToNoise) (s.bins i) = some t ∧
      0 ≤ t.est ∧ t.est < 2147483648) (fun i => by
      have hdfa := b.dfa_range i
      have hlo : 0 ≤ b.dfa i * 2 ^ b.shiftFromNearToNoise := Int.mul_nonneg hdfa.1 (by omega)
      have hhi : b.dfa i * 2 ^ b.shiftFromNearToNoise ≤ 65535 * 32768 :=
        Int.mul_le_mul hdfa.2 hpow' (by omega) (by omega)
      obtain ⟨t, ht, hrange⟩ := track_spec s.minTrackShift_eq hlo (hs i)
      have hshift : checked32 (b.dfa i * 2 ^ b.shiftFromNearToNoise) = some (b.dfa i * 2 ^ b.shiftFromNearToNoise) :=
        checked32_eq (by omega) (by omega)
      exact ⟨t, by simp only [hshift, Option.bind_eq_bind, Option.bind_some, ht], ht, hrange⟩)
  obtain ⟨settled, hsettled, hc⟩ := gather_spec
    (f := fun i => settle b.shiftFromNearToNoise (b.lambda i) (tracked i))
    (P := fun i r => 0 ≤ r.1.est ∧ r.1.est < 32768 * 2 ^ b.shiftFromNearToNoise ∧ 0 ≤ r.2 ∧ r.2 ≤ 32767) (fun i => by
      obtain ⟨-, -, hlo, -⟩ := ht i
      obtain ⟨n, hn0, hn1, heq⟩ := settle_eq (show b.shiftFromNearToNoise ≤ 15 from Nat.sub_le _ _)
        (b.lambda_range i) hlo
      refine ⟨_, heq, ?_⟩
      split
      · next hfits => exact ⟨hlo, hfits, hn0, hn1⟩
      · exact ⟨by dsimp only; omega, by dsimp only; omega, hn0, hn1⟩)
  obtain ⟨hlen, hrand⟩ := randUArray_range partLen s.seed
  obtain ⟨u, hu, -⟩ := gather_spec (f := fun i => shapeNoise (randUArray partLen s.seed).1 (settled i).2 i)
    (P := fun _ _ => True) (fun i => by
      obtain ⟨x, hx⟩ := shapeNoise_spec hlen hrand (hc i).2.2.2 i
      exact ⟨x, hx, trivial⟩)
  unfold Noise.minTrackShift at htracked
  unfold comfortNoise
  simp only [Option.bind_eq_bind] at htracked
  simp only [Option.bind_eq_bind, htracked, Option.bind_some, hsettled, hu]
  refine ⟨_, rfl, ?_, ⟨?_, ?_, ?_⟩, rfl⟩
  · intro i
    exact ⟨tracked i, (ht i).2.1, (hc i).1⟩
  · intro i
    exact ⟨(hc i).2.1, (hc i).2.2.1⟩
  · intro i
    exact (hc i).2.2.2
  · intro x hx
    exact tableIndex_range (hrand x hx)

theorem NoiseCall.Bounded.fits {c : NoiseCall} {b : NoiseBlock} (h : c.Bounded b) (i : Bin) :
    (c.noise.bins i).Fits := by
  obtain ⟨hlo, hhi⟩ := h.1 i
  have hpow := two_pow_shift b
  exact ⟨hlo, by omega⟩

/-! ## Whole runs -/

theorem pinkNoise_eq (n : Nat) : pinkNoise n = (257 - (n : Int), (257 - (n : Int)) * (257 - (n : Int))) := by
  induction n with
  | zero => rfl
  | succ n ih =>
    simp only [pinkNoise, ih, Prod.mk.injEq]
    push_cast
    constructor
    · ring
    · ring

theorem initNoise_fits (i : Bin) : (initNoise.bins i).Fits := by
  unfold NoiseBin.Fits initNoise
  dsimp only
  rw [pinkNoise_eq]
  dsimp only
  have hlo : (0 : Int) ≤ 257 - ((min i.val (partLen1 / 2 - 1) : Nat) : Int) := by
    unfold partLen1
    omega
  have hhi : (257 : Int) - ((min i.val (partLen1 / 2 - 1) : Nat) : Int) ≤ 257 := by omega
  generalize (257 : Int) - ((min i.val (partLen1 / 2 - 1) : Nat) : Int) = x at hlo hhi
  have hsquare : x * x ≤ 257 * 257 := Int.mul_le_mul hhi hhi hlo (by omega)
  have hnonneg : 0 ≤ x * x := Int.mul_nonneg hlo hlo
  omega

theorem noiseStep_eq {s : Noise} {b : NoiseBlock} {c : NoiseCall} (h : comfortNoise s b = some c) :
    noiseStep s b = (c.noise, some c) := by
  unfold noiseStep
  split
  · next c' hc =>
    have hsame : c' = c := Option.some.inj (hc.symm.trans h)
    rw [hsame]
  · next hc =>
    rw [hc] at h
    cases h

/-- **In every run of calls nothing overflows and the estimates stay below `32768 << shift`.** -/
theorem comfortNoise_bounded (blocks : List NoiseBlock) :
    Meets noiseStep (fun s b => ∃ c, comfortNoise s b = some c ∧ c.Bounded b) initNoise blocks := by
  have hall : Meets noiseStep (fun _ _ => True) initNoise blocks :=
    (meets_of_forall noiseStep (H := fun _ => True) (fun _ _ => trivial) initNoise)
  refine meets_of_inv (P := fun s => ∀ i, (s.bins i).Fits) ?_ initNoise_fits hall
  intro s b hs _
  obtain ⟨c, hc, -, hbounded, -⟩ := comfortNoise_spec hs b
  rw [noiseStep_eq hc]
  exact ⟨hbounded.fits, c, hc, hbounded⟩

/-! ## The clamp is not a bound -/

/-- A block with the same magnitude in every bin, in the Q-domain that is shifted most. -/
def steadyBlock (x : Int) (h : 0 ≤ x ∧ x ≤ 65535) : NoiseBlock where
  dfa := fun _ => x
  lambda := fun _ => 0
  dfaCleanQDomain := 0
  out := fun _ => ⟨0, 0⟩
  dfa_range := fun _ => h
  lambda_range := fun _ => ⟨Int.le_refl _, by decide⟩
  qDomain_le := Nat.zero_le _

theorem steady_step {s : Noise} (hs : ∀ i, (s.bins i).Fits) (x : Int) (h : 0 ≤ x ∧ x ≤ 65535) :
    ∃ c, comfortNoise s (steadyBlock x h) = some c ∧ (∀ i, (c.noise.bins i).Fits) ∧
      c.noise.ctr = (if s.ctr < 100 then s.ctr + 1 else s.ctr) ∧
      ∀ i, ∃ t, track s.minTrackShift (x * 32768) (s.bins i) = some t ∧
        (c.noise.bins i).est = if t.est < 1073741824 then t.est else 1073709056 := by
  obtain ⟨c, hc, hfollows, hbounded, hctr⟩ := comfortNoise_spec hs (steadyBlock x h)
  refine ⟨c, hc, hbounded.fits, hctr, ?_⟩
  intro i
  obtain ⟨t, ht, hsettle⟩ := hfollows i
  obtain ⟨t', ht', hlo, -⟩ := track_spec s.minTrackShift_eq (x := x * 32768) (by omega) (hs i)
  have hsame : t = t' := Option.some.inj (ht.symm.trans ht')
  subst hsame
  obtain ⟨n, -, -, heq⟩ := settle_eq (show 15 ≤ 15 from Nat.le_refl _) ((steadyBlock x h).lambda_range i) hlo
  have hbin : (c.noise.bins i, c.noiseRShift16 i) =
      (if t.est < 32768 * 2 ^ 15 then t else { t with est := 32767 * 2 ^ 15 }, n) :=
    Option.some.inj (hsettle.symm.trans heq)
  have hest := congrArg (fun p => p.1.est) hbin
  refine ⟨t, ht, hest.trans ?_⟩
  norm_num
  split
  · rfl
  · rfl

/-- Below a spectrum as loud as it gets, the estimate ramps. -/
theorem track_loud {m : Nat} {b : NoiseBin} (hb : b.Fits) (hlarge : 524288 ≤ b.est) :
    track m (65535 * 32768) b = some ⟨b.est / 2048 * 2049, b.tooLowCtr, 0⟩ := by
  obtain ⟨hlo, hhi⟩ := hb
  have hest : checked32 (b.est / 2048 * 2049) = some (b.est / 2048 * 2049) := checked32_eq (by omega) (by omega)
  unfold track
  rw [if_neg (by omega), if_pos (by omega)]
  simp only [hest, Option.bind_eq_bind, Option.bind_some]

def loudBlock : NoiseBlock := steadyBlock 65535 (by omega)

/-- The bound on what a block leaves. -/
def Clamped (s : Noise) (b : NoiseBlock) : Prop :=
  ∃ c, comfortNoise s b = some c ∧ ∀ i, (c.noise.bins i).est ≤ 32767 * 2 ^ 15

/-- A step within the bound sets the first bin's estimate as `track` does, or to the clamp. -/
theorem clamped_step {s : Noise} (hs : ∀ i, (s.bins i).Fits) {x : Int} {h : 0 ≤ x ∧ x ≤ 65535}
    (hc : Clamped s (steadyBlock x h)) :
    (∀ i, ((noiseStep s (steadyBlock x h)).1.bins i).Fits) ∧
      (noiseStep s (steadyBlock x h)).1.ctr = (if s.ctr < 100 then s.ctr + 1 else s.ctr) ∧
      ∃ t, track s.minTrackShift (x * 32768) (s.bins 0) = some t ∧
        ((noiseStep s (steadyBlock x h)).1.bins 0).est = (if t.est < 1073741824 then t.est else 1073709056) ∧
        ((noiseStep s (steadyBlock x h)).1.bins 0).est ≤ 1073709056 := by
  obtain ⟨c', hc', hbound⟩ := hc
  obtain ⟨c, hc, hfits, hctr, hall⟩ := steady_step hs x h
  have hsame : c' = c := Option.some.inj (hc'.symm.trans hc)
  subst hsame
  obtain ⟨t, ht, hest⟩ := hall 0
  rw [noiseStep_eq hc]
  exact ⟨hfits, hctr, t, ht, hest, hbound 0⟩

/-- The first bin while it ramps. -/
structure Ramping (n : Nat) (s : Noise) : Prop where
  fits : ∀ i, (s.bins i).Fits
  ctr : s.ctr = min (n : Int) 100
  low : 16908544 ≤ (s.bins 0).est
  high : (s.bins 0).est ≤ 1073709056
  reached : 16908544 + 2048 * (n : Int) ≤ (s.bins 0).est ∨ (s.bins 0).est = 1073709056

theorem Ramping.step {n : Nat} {s : Noise} (hs : Ramping n s) (hc : Clamped s loudBlock) :
    Ramping (n + 1) (noiseStep s loudBlock).1 := by
  obtain ⟨hfits, hctr, low, high, hreached⟩ := hs
  obtain ⟨hfits', hctr', t, ht, hest, hbound⟩ := clamped_step hfits hc
  rw [track_loud (hfits 0) (by omega)] at ht
  have hramp : t.est = (s.bins 0).est / 2048 * 2049 := by
    rw [← Option.some.inj ht]
  rw [hramp] at hest
  unfold loudBlock
  generalize (noiseStep s (steadyBlock 65535 (by omega))).1 = s' at hfits' hctr' hest hbound ⊢
  refine ⟨hfits', ?_, ?_, hbound, ?_⟩
  · rw [hctr']
    push_cast
    split
    · omega
    · omega
  · split at hest
    · omega
    · omega
  · push_cast
    split at hest
    · omega
    · omega

theorem ramping_run (hall : ∀ blocks, Meets noiseStep Clamped initNoise blocks) (n : Nat) :
    Ramping n (run noiseStep initNoise (List.replicate n loudBlock)) := by
  induction n with
  | zero =>
    refine ⟨initNoise_fits, rfl, ?_, ?_, .inl ?_⟩
    · decide
    · decide
    · decide
  | succ n ih =>
    rw [List.replicate_succ', run_append]
    have hmeets := hall (List.replicate n loudBlock ++ [loudBlock])
    exact ih.step (meets_append.1 hmeets).2.1

/-- A dip of the spectrum brings an estimate that was clamped off the grid of the clamp, and the next loud
block brings it past the clamp without filling the upper bits. -/
theorem not_clamped : ¬ ∀ blocks, Meets noiseStep Clamped initNoise blocks := by
  intro hall
  obtain ⟨n, hn⟩ : ∃ n : Nat, n = 600000 := ⟨_, rfl⟩
  obtain ⟨hfits, hctr, -, high, hreached⟩ := ramping_run hall n
  have hmeets := hall (List.replicate n loudBlock ++ [steadyBlock 24800 (by omega), loudBlock])
  obtain ⟨hdip, hloud, -⟩ := (meets_append.1 hmeets).2
  generalize run noiseStep initNoise (List.replicate n loudBlock) = s at *
  have hfull : (s.bins 0).est = 1073709056 := by omega
  have hshift : s.minTrackShift = 9 := by
    rw [Noise.minTrackShift, if_neg (by omega)]
  obtain ⟨hfits', -, t, ht, hest, -⟩ := clamped_step hfits hdip
  have hdipped : track 9 (24800 * 32768) (s.bins 0) = some ⟨1073199168, 0, (s.bins 0).tooHighCtr⟩ := by
    unfold track
    rw [hfull]
    rfl
  rw [hshift, hdipped] at ht
  have hgrid : t.est = 1073199168 := by
    rw [← Option.some.inj ht]
  rw [hgrid, if_pos (by decide)] at hest
  generalize (noiseStep s (steadyBlock 24800 (by omega))).1 = s' at *
  obtain ⟨-, -, t', ht', hest', hbound⟩ := clamped_step hfits' hloud
  rw [track_loud (hfits' 0) (by omega)] at ht'
  have hpast : t'.est = 1073723127 := by
    rw [← Option.some.inj ht']
    dsimp only
    omega
  rw [hpast, if_pos (by decide)] at hest'
  omega

end WebRtc.Aecm
