import WebRtc.Lib.CInt
import WebRtc.Lib.Machine

/-!
# The echo channels of the AECM (`aecm_core.c`, `spl_inl.h`)

| here | there |
| --- | --- |
| `normU32`, `normW32`, `addSatW32` | `WebRtcSpl_NormU32`, `WebRtcSpl_NormW32`, `WebRtcSpl_AddSatW32` (spl_inl.h:38-142) |
| `shiftU32`, `shiftW32`      | `WEBRTC_SPL_SHIFT_W32` on an unsigned and on a signed word |
| `divW32W16`                 | `WebRtcSpl_DivW32W16` (division_operations.c:38) |
| `Channels`                  | the fields of `AecmCore` (aecm_core.h:63) the functions below read or write |
| `initEchoPathCore`          | `WebRtcAecm_InitEchoPathCore` (aecm_core.c:288) |
| `initCore`                  | the same fields in `WebRtcAecm_InitCore` (:383) |
| `asymFilt`, `logOfEnergyInQ8` | `WebRtcAecm_AsymFilt` (:727), `LogOfEnergyInQ8` (:759) |
| `updateFarLevels`, `updateVad`, `calcEnergies` | `WebRtcAecm_CalcEnergies` (:786) with `CalcLinearEnergiesC` (:307) |
| `nlmsUpdate`, `updateBin`, `updateChannel` | `WebRtcAecm_UpdateChannel` (:965) |
| `storeAdaptiveChannel`, `resetAdaptiveChannel` | `StoreAdaptiveChannelC` (:327), `ResetAdaptiveChannelC` (:350) |

An array over the frequency bins is a function on `Bin`, and every loop over the bins treats each on
its own. A shift by 32 or more, undefined in C, shifts everything out here.
-/

namespace WebRtc.Aecm

open CInt

/-! ## Fixed point helpers -/

/-- `!(mask & a)` for a mask of leading ones is a comparison with the lowest bit of the mask. -/
def normU32 (a : Int) : Int :=
  if a = 0 then 0
  else
    let z := if a < 2 ^ 16 then 16 else 0
    let z := if u32 (a * 2 ^ z) < 2 ^ 24 then z + 8 else z
    let z := if u32 (a * 2 ^ z) < 2 ^ 28 then z + 4 else z
    let z := if u32 (a * 2 ^ z) < 2 ^ 30 then z + 2 else z
    ((if u32 (a * 2 ^ z) < 2 ^ 31 then z + 1 else z : Nat) : Int)

def normW32 (a : Int) : Int :=
  if a = 0 then 0
  else
    let a := if a < 0 then -a - 1 else a
    let z := if a < 2 ^ 15 then 16 else 0
    let z := if u32 (a * 2 ^ z) < 2 ^ 23 then z + 8 else z
    let z := if u32 (a * 2 ^ z) < 2 ^ 27 then z + 4 else z
    let z := if u32 (a * 2 ^ z) < 2 ^ 29 then z + 2 else z
    ((if u32 (a * 2 ^ z) < 2 ^ 30 then z + 1 else z : Nat) : Int)

def addSatW32 (a b : Int) : Int :=
  let sum := i32 (a + b)
  if a < 0 then if b < 0 ∧ sum ≥ 0 then -2147483648 else sum
  else if b > 0 ∧ sum < 0 then 2147483647 else sum

def shiftU32 (x c : Int) : Int := if c ≥ 0 then u32 (x * 2 ^ c.toNat) else x / 2 ^ (-c).toNat

def shiftW32 (x c : Int) : Int := if c ≥ 0 then i32 (x * 2 ^ c.toNat) else x / 2 ^ (-c).toNat

def divW32W16 (num den : Int) : Int := if den ≠ 0 then i32 (num.tdiv den) else 2147483647

/-! ## State -/

abbrev partLen1 : Nat := 257
abbrev Bin := Fin partLen1
abbrev Bins := Bin → Int

/-- The sum over the bins. -/
def binSum (f : Bins) : Int := ((List.finRange partLen1).map f).sum

structure Channels where
  channelStored : Bins
  channelAdapt16 : Bins
  channelAdapt32 : Bins
  nearLogEnergy : List Int
  echoAdaptLogEnergy : List Int
  echoStoredLogEnergy : List Int
  farLogEnergy : Int
  farEnergyMin : Int
  farEnergyMax : Int
  farEnergyMaxMin : Int
  farEnergyVAD : Int
  farEnergyMSE : Int
  currentVADValue : Bool
  vadUpdateCount : Int
  firstVAD : Bool
  startupState : Int
  dfaNoisyQDomain : Int
  mseAdaptOld : Int
  mseStoredOld : Int
  mseThreshold : Int
  mseChannelCount : Int

abbrev maxBufLen : Nat := 64
abbrev resolutionChannel16 : Int := 12
abbrev resolutionChannel32 : Int := 28
abbrev farEnergyMinLevel : Int := 1025
abbrev farEnergyVadRegion : Int := 230
abbrev farEnergyDiff : Int := 929
abbrev channelVad : Int := 16
abbrev minMseCount : Nat := 20
abbrev minMseDiff : Int := 29
abbrev word32Max : Int := 2147483647

/-- `kChannelStored8kHz` (:123): 65 entries are given, the rest of the array is 0. -/
def channelStored8kHz : List Int :=
  [2040, 1815, 1590, 1498, 1405, 1395, 1385, 1418, 1451, 1506, 1562, 1644, 1726, 1804, 1882, 1918,
   1953, 1982, 2010, 2025, 2040, 2034, 2027, 2021, 2014, 1997, 1980, 1925, 1869, 1800, 1732, 1683,
   1635, 1604, 1572, 1545, 1517, 1481, 1444, 1405, 1367, 1331, 1294, 1270, 1245, 1239, 1233, 1247,
   1260, 1282, 1303, 1338, 1373, 1407, 1441, 1470, 1499, 1524, 1549, 1565, 1582, 1601, 1621, 1649,
   1676]

/-- `kChannelStored16kHz` (:136). -/
def channelStored16kHz : List Int :=
  [2040, 1590, 1405, 1385, 1451, 1562, 1726, 1882, 1953, 2010, 2040, 2027, 2014, 1980, 1869, 1732,
   1635, 1572, 1517, 1444, 1367, 1294, 1245, 1233, 1260, 1303, 1373, 1441, 1499, 1549, 1582, 1621,
   1676, 1741, 1802, 1861, 1921, 1983, 2040, 2102, 2170, 2265, 2375, 2515, 2651, 2781, 2922, 3075,
   3253, 3471, 3738, 3976, 4151, 4258, 4308, 4288, 4270, 4253, 4237, 4179, 4086, 3947, 3757, 3484,
   3153]

namespace Channels

/-- `(int32_t)x << 16`. -/
def widen (x : Int) : Int := i32 (x * 65536)

/-- `echo_path` is an array of `int16_t`. -/
def initEchoPathCore (s : Channels) (echoPath : Bins) : Channels :=
  let path : Bins := fun i => i16 (echoPath i)
  { s with channelStored := path
           channelAdapt16 := path
           channelAdapt32 := fun i => widen (path i)
           mseAdaptOld := 1000
           mseStoredOld := 1000
           mseThreshold := word32Max
           mseChannelCount := 0 }

def initCore (s : Channels) (samplingFreq : Int) : Option Channels :=
  if samplingFreq ≠ 8000 ∧ samplingFreq ≠ 16000 then none
  else
    let s := { s with
      dfaNoisyQDomain := 0
      nearLogEnergy := List.replicate maxBufLen 0
      farLogEnergy := 0
      echoAdaptLogEnergy := List.replicate maxBufLen 0
      echoStoredLogEnergy := List.replicate maxBufLen 0 }
    let table := if samplingFreq = 8000 then channelStored8kHz else channelStored16kHz
    some { s.initEchoPathCore (fun i => table.getD i 0) with
      farEnergyMin := 32767
      farEnergyMax := -32768
      farEnergyMaxMin := 0
      farEnergyVAD := farEnergyMinLevel
      farEnergyMSE := 0
      currentVADValue := false
      vadUpdateCount := 0
      firstVAD := true
      startupState := 0 }

/-! ## Energies -/

def asymFilt (filtOld inVal stepSizePos stepSizeNeg : Int) : Int :=
  if filtOld = 32767 ∨ filtOld = -32768 then inVal
  else if filtOld > inVal then i16 (filtOld - (filtOld - inVal) / 2 ^ stepSizeNeg.toNat)
  else i16 (filtOld + (inVal - filtOld) / 2 ^ stepSizePos.toNat)

/-- `ExtractFractionPart`: the fraction part of `a` in Q8. -/
def extractFractionPart (a zeros : Int) : Int := i16 (u32 (a * 2 ^ zeros.toNat) % 2147483648 / 8388608)

def logOfEnergyInQ8 (energy qDomain : Int) : Int :=
  let low := 9 * 128
  if energy > 0 then
    let zeros := normU32 energy
    i16 (low + (31 - zeros) * 256 + extractFractionPart energy zeros - qDomain * 256)
  else low

/-- `memmove` by one entry, and the new entry 0. -/
def pushEnergy (buf : List Int) (x : Int) : List Int := x :: buf.take (maxBufLen - 1)

/-- Update farend energy levels (:832-876). -/
def updateFarLevels (s : Channels) : Channels :=
  if s.farLogEnergy > farEnergyMinLevel then
    let increaseMaxShifts := if s.startupState = 0 then 2 else 4
    let decreaseMinShifts := if s.startupState = 0 then 2 else 3
    let increaseMinShifts := if s.startupState = 0 then 8 else 11
    let farMin := asymFilt s.farEnergyMin s.farLogEnergy increaseMinShifts decreaseMinShifts
    let farMax := asymFilt s.farEnergyMax s.farLogEnergy increaseMaxShifts 11
    -- Dynamic VAD region size
    let tmp := i16 (2560 - farMin)
    let tmp := if tmp > 0 then i16 (tmp * farEnergyVadRegion / 512) else 0
    let tmp := i16 (tmp + farEnergyVadRegion)
    let halted := decide (s.startupState = 0 ∨ s.vadUpdateCount > 1024)
    let behind := decide (s.farEnergyVAD > s.farLogEnergy)
    let vad :=
      if halted then i16 (farMin + tmp)
      else if behind then i16 (s.farEnergyVAD + (s.farLogEnergy + tmp - s.farEnergyVAD) / 64)
      else s.farEnergyVAD
    { s with farEnergyMin := farMin
             farEnergyMax := farMax
             farEnergyMaxMin := i16 (farMax - farMin)
             farEnergyVAD := vad
             vadUpdateCount :=
               if halted then s.vadUpdateCount else if behind then 0 else i16 (s.vadUpdateCount + 1)
             farEnergyMSE := i16 (vad + 256) }
  else s

/-- Update VAD variables (:879-890). -/
def updateVad (s : Channels) : Channels :=
  { s with currentVADValue :=
      if s.farLogEnergy > s.farEnergyVAD then
        if s.startupState = 0 ∨ s.farEnergyMaxMin > farEnergyDiff then true else s.currentVADValue
      else false }

/-- `WebRtcAecm_CalcEnergies` up to the VAD decision. -/
def measure (s : Channels) (farSpectrum : Bins) (farQ nearEner : Int) : Channels :=
  let tmpFar := u32 (binSum farSpectrum)
  let tmpAdapt := u32 (binSum fun i => s.channelAdapt16 i * farSpectrum i)
  let tmpStored := u32 (binSum fun i => s.channelStored i * farSpectrum i)
  updateVad (updateFarLevels
    { s with nearLogEnergy := pushEnergy s.nearLogEnergy (logOfEnergyInQ8 nearEner s.dfaNoisyQDomain)
             farLogEnergy := logOfEnergyInQ8 tmpFar farQ
             echoAdaptLogEnergy := pushEnergy s.echoAdaptLogEnergy
               (logOfEnergyInQ8 tmpAdapt (resolutionChannel16 + farQ))
             echoStoredLogEnergy :=
               pushEnergy s.echoStoredLogEnergy (logOfEnergyInQ8 tmpStored (resolutionChannel16 + farQ)) })

/-- The estimated echo has higher energy than the near end signal (:891-894). -/
def tooAggressive (s : Channels) : Bool :=
  s.currentVADValue && s.firstVAD && decide (s.echoAdaptLogEnergy.headD 0 > s.nearLogEnergy.headD 0)

/-- The initialization was too aggressive. Scale down by a factor 8. -/
def scaleDown (s : Channels) : Channels :=
  { s with channelAdapt16 := fun i => s.channelAdapt16 i / 8
           -- Compensate the adapted echo energy level accordingly.
           echoAdaptLogEnergy := i16 (s.echoAdaptLogEnergy.headD 0 - 768) :: s.echoAdaptLogEnergy.tail
           firstVAD := true }

/-- With `echoEst`, the estimated echo. -/
def calcEnergies (s : Channels) (farSpectrum : Bins) (farQ nearEner : Int) : Channels × Bins :=
  let m := s.measure farSpectrum farQ nearEner
  (if m.tooAggressive then m.scaleDown
    else if m.currentVADValue && m.firstVAD then { m with firstVAD := false } else m,
    fun i => s.channelStored i * farSpectrum i)

/-! ## Adaptation -/

def storeAdaptiveChannel (s : Channels) (farSpectrum : Bins) : Channels × Bins :=
  ({ s with channelStored := s.channelAdapt16 }, fun i => s.channelAdapt16 i * farSpectrum i)

def resetAdaptiveChannel (s : Channels) : Channels :=
  { s with channelAdapt16 := s.channelStored
           channelAdapt32 := fun i => widen (s.channelStored i) }

/-- What the NLMS step adds to `channelAdapt32[i]` (:987-1079), if the bin is updated. -/
def nlmsUpdate (adapt32 far dfa farQ dfaNoisyQDomain mu : Int) (i : Nat) : Option Int :=
  -- Determine norm of channel and farend to make sure we don't get overflow in multiplication
  let zerosCh := normU32 (u32 adapt32)
  let zerosFar := normU32 far
  let safe := decide (zerosCh + zerosFar > 31)
  let shiftChFar := if safe then 0 else i16 (32 - zerosCh - zerosFar)
  let prod := if safe then u32 (adapt32 * far) else u32 (adapt32 / 2 ^ shiftChFar.toNat * far)
  -- Determine Q-domain of numerator
  let zerosNum := normU32 prod
  let zerosDfa := if dfa ≠ 0 then normU32 dfa else 32
  let tmp16 := i16 (zerosDfa - 2 + dfaNoisyQDomain - resolutionChannel32 - farQ + shiftChFar)
  let fits := decide (zerosNum > tmp16 + 1)
  let xfaQ := if fits then tmp16 else i16 (zerosNum - 2)
  let dfaQ := if fits then i16 (zerosDfa - 2)
    else i16 (resolutionChannel32 + farQ - dfaNoisyQDomain - shiftChFar + xfaQ)
  -- Add in the same Q-domain
  let err := i32 (i32 (shiftU32 dfa dfaQ) - i32 (shiftU32 prod xfaQ))
  let zerosNum := normW32 err
  if err ≠ 0 ∧ far > channelVad * 2 ^ farQ.toNat then
    -- Make sure we don't get overflow in multiplication.
    let safe := decide (zerosNum + zerosFar > 31)
    let shiftNum := if safe then 0 else i16 (32 - (zerosNum + zerosFar))
    let num :=
      if err > 0 then i32 (err / 2 ^ shiftNum.toNat * far)
      else i32 (-i32 (i32 (-err) / 2 ^ shiftNum.toNat * far))
    -- Normalize with respect to frequency bin
    let num := divW32W16 num (i + 1)
    -- Make sure we are in the right Q-domain
    let shift2ResChan := i16 (shiftNum + shiftChFar - xfaQ - mu - (30 - zerosFar) * 2)
    some (if normW32 num < shift2ResChan then word32Max else shiftW32 num shift2ResChan)
  else none

/-- The bin of the two channels after the NLMS step. We can never have negative channel gain. -/
def updateBin (adapt16 adapt32 : Int) (update : Option Int) : Int × Int :=
  match update with
  | none => (adapt16, adapt32)
  | some x =>
    let sum := addSatW32 adapt32 x
    let wide := if sum < 0 then 0 else sum
    (i16 (wide / 65536), wide)

/-- The loop of the adaptive channel update. -/
def nlms (s : Channels) (farSpectrum : Bins) (farQ : Int) (dfa : Bins) (mu : Int) : Channels :=
  if mu ≠ 0 then
    let bin : Bin → Int × Int := fun i => updateBin (s.channelAdapt16 i) (s.channelAdapt32 i)
      (nlmsUpdate (s.channelAdapt32 i) (farSpectrum i) (dfa i) farQ s.dfaNoisyQDomain mu i)
    { s with channelAdapt16 := fun i => (bin i).1, channelAdapt32 := fun i => (bin i).2 }
  else s

/-- The average absolute error of the last log energies against the near end. -/
def logError (echo near : List Int) : Int :=
  ((echo.zip near).take minMseCount).foldl (fun acc p => i32 (acc + (p.1 - p.2).natAbs)) 0

/-- Determine if we should store or restore the channel, with enough data (:1110-1158). -/
def compareChannels (s : Channels) (farSpectrum echoEst : Bins) : Channels × Bins :=
  let mseStored := logError s.echoStoredLogEnergy s.nearLogEnergy
  let mseAdapt := logError s.echoAdaptLogEnergy s.nearLogEnergy
  let r :=
    if i32 (mseStored * 32) < i32 (minMseDiff * mseAdapt) ∧
        i32 (s.mseStoredOld * 32) < i32 (minMseDiff * s.mseAdaptOld) then
      (s.resetAdaptiveChannel, echoEst)
    else if i32 (minMseDiff * mseStored) > i32 (mseAdapt * 32) ∧ mseAdapt < s.mseThreshold ∧
        s.mseAdaptOld < s.mseThreshold then
      let t := s.storeAdaptiveChannel farSpectrum
      ({ t.1 with mseThreshold :=
          if s.mseThreshold = word32Max then i32 (mseAdapt + s.mseAdaptOld)
          else i32 (s.mseThreshold + i32 ((mseAdapt - (i32 (s.mseThreshold * 5)).tdiv 8) * 205) / 256) }, t.2)
    else (s, echoEst)
  ({ r.1 with mseChannelCount := 0, mseStoredOld := mseStored, mseAdaptOld := mseAdapt }, r.2)

def updateChannel (s : Channels) (farSpectrum : Bins) (farQ : Int) (dfa : Bins) (mu : Int) (echoEst : Bins) :
    Channels × Bins :=
  let s := s.nlms farSpectrum farQ dfa mu
  if s.startupState = 0 ∧ s.currentVADValue then s.storeAdaptiveChannel farSpectrum
  else
    let count := if s.farLogEnergy < s.farEnergyMSE then 0 else i16 (s.mseChannelCount + 1)
    let s := { s with mseChannelCount := count }
    if count ≥ minMseCount + 10 then s.compareChannels farSpectrum echoEst else (s, echoEst)

/-! ## Runs -/

/-- A call of one of the functions, or the assignment of the block's state and Q-domain by
`WebRtcAecm_ProcessBlock`. -/
inductive Op
  | block (startupState dfaNoisyQDomain : Int)
  | calcEnergies (farSpectrum : Bins) (farQ nearEner : Int)
  | updateChannel (farSpectrum : Bins) (farQ : Int) (dfa : Bins) (mu : Int) (echoEst : Bins)
  | storeAdaptiveChannel (farSpectrum : Bins)
  | resetAdaptiveChannel (echoEst : Bins)

/-- The next state and `echoEst`. -/
def step (s : Channels) : Op → Channels × Bins
  | .block startupState dfaNoisyQDomain =>
    ({ s with startupState := startupState, dfaNoisyQDomain := dfaNoisyQDomain }, fun _ => 0)
  | .calcEnergies far farQ nearEner => s.calcEnergies far farQ nearEner
  | .updateChannel far farQ dfa mu echoEst => s.updateChannel far farQ dfa mu echoEst
  | .storeAdaptiveChannel far => s.storeAdaptiveChannel far
  | .resetAdaptiveChannel echoEst => (s.resetAdaptiveChannel, echoEst)

end Channels

end WebRtc.Aecm
