import WebRtc.Aecm.Core
import WebRtc.Lib.Machine

/-!
# The AECM instance (`echo_control_mobile.c`)

| here | there |
| --- | --- |
| `AecMobile`               | `AecMobile` (echo_control_mobile.c:34) without `scSampFreq` and `echoMode` |
| `init`                    | `WebRtcAecm_Init` (:139); `initBlk` has what `WebRtcAecm_set_config` assigns there |
| `getBufferFarendError`    | `WebRtcAecm_GetBufferFarendError` (:197) |
| `bufferFarend`            | `WebRtcAecm_BufferFarend` (:217) |
| `checkBufSize`, `endStartup` | the two `if` blocks of the start-up branch of `WebRtcAecm_Process` (:311-374) |
| `nextFarend`, `prepareFrame`, `processLoop` | the frame loop (:380-425) |
| `processError`, `processChecked`, `process` | `WebRtcAecm_Process` (:238) |
| `estBufDelay`             | `WebRtcAecm_EstBufDelay` (:575) |
| `delayComp`               | `WebRtcAecm_DelayComp` (:626) |

A pointer to samples is the function from index to sample, `none` when null; the instance itself is
not null. Every result carries a log next to the return value: the frames handed to
`WebRtcAecm_ProcessFrame`, and the values stored to the `short` counters and the divisors of the
start-up phase before any conversion. Nothing reads `scSampFreq`, and only `WebRtcAecm_set_config`
reads `echoMode`.
-/

namespace WebRtc.Aecm

open CInt

structure AecMobile (α σ : Type) where
  sampFreq : Int
  bufSizeStart : Int
  knownDelay : Int
  /-- `farendOld[2][FRAME_LEN]`, row after row. -/
  farendOld : List α
  initFlag : Int
  counter : Int
  sum : Int
  firstVal : Int
  checkBufSizeCtr : Int
  msInSndCardBuf : Int
  filtDelay : Int
  timeForDelayChange : Int
  ecStartup : Bool
  checkBuffSize : Bool
  delayChange : Bool
  lastDelayDiff : Int
  farendBuf : RingBuffer α
  aecmCore : AecmCore α σ

/-- The arguments of `WebRtcAecm_Process`. -/
structure ProcessCall (α : Type) where
  nearendNoisy : Option (Nat → α)
  nearendClean : Option (Nat → α)
  hasOut : Bool
  nrOfSamples : Nat
  msInSndCardBuf : Int

inductive MobileCall (α : Type)
  | bufferFarend (farend : Option (Nat → α)) (nrOfSamples : Nat)
  | process (c : ProcessCall α)

structure MobileResult (α : Type) where
  ret : Int
  out : List α
  /-- The frames handed to `WebRtcAecm_ProcessFrame`. -/
  handed : List (FrameCall α)
  /-- What is assigned to `checkBufSizeCtr`, `sum` and `counter`. -/
  stores : List Int
  divisors : List Int

namespace AecMobile

variable {α σ : Type}

abbrev bufSizeFrames : Int := 50
/-- `kBufSizeSamp`. -/
abbrev bufSizeSamp : Nat := 4000
abbrev initCheck : Int := 42
abbrev sampMsNb : Int := 8
abbrev unspecifiedError : Int := 12000
abbrev uninitializedError : Int := 12002
abbrev nullPointerError : Int := 12003
abbrev badParameterError : Int := 12004
abbrev badParameterWarning : Int := 12100

/-- What every instance has had since its creation, whatever was done with it. -/
structure Created (s : AecMobile α σ) : Prop where
  farendOld : s.farendOld.length = 2 * frameLen
  farendBuf : s.farendBuf.elementCount = bufSizeSamp
  core : s.aecmCore.Created

/-- Return `ret` and nothing else. -/
def done (s : AecMobile α σ) (ret : Int) : AecMobile α σ × MobileResult α := (s, ⟨ret, [], [], [], []⟩)

def available (s : AecMobile α σ) : Nat := s.farendBuf.availableRead

/-- `(short) WebRtc_available_read(aecm->farendBuf) / FRAME_LEN`. -/
def filledBuffers (s : AecMobile α σ) : Int := i16 ((i16 s.available).tdiv 80)

/-! ## Delay -/

def estBufDelay (s : AecMobile α σ) (msInSndCardBuf : Int) : AecMobile α σ :=
  let nSampFar := i16 s.available
  let nSampSndCard := i16 (msInSndCardBuf * sampMsNb * s.aecmCore.mult)
  let delayNew := i16 (nSampSndCard - nSampFar)
  let farendBuf := if delayNew < 80 then (s.farendBuf.moveReadPtr 80).1 else s.farendBuf
  let delayNew := if delayNew < 80 then i16 (delayNew + 80) else delayNew
  let filtDelay := i16 (max 0 ((8 * s.filtDelay + 2 * delayNew).tdiv 10))
  let diff := i16 (filtDelay - s.knownDelay)
  let time :=
    if diff > 224 then if s.lastDelayDiff < 96 then 0 else i32 (s.timeForDelayChange + 1)
    else if diff < 96 ∧ s.knownDelay > 0 then
      if s.lastDelayDiff > 224 then 0 else i32 (s.timeForDelayChange + 1)
    else 0
  { s with farendBuf := farendBuf
           filtDelay := filtDelay
           timeForDelayChange := time
           lastDelayDiff := diff
           knownDelay := if time > 25 then max (filtDelay - 160) 0 else s.knownDelay }

def delayComp (s : AecMobile α σ) : AecMobile α σ :=
  let nSampFar := i32 s.available
  let nSampSndCard := i32 (s.msInSndCardBuf * sampMsNb * s.aecmCore.mult)
  let delayNew := i32 (nSampSndCard - nSampFar)
  -- The difference of the buffer sizes is larger than the maximum allowed known delay:
  -- compensate by stuffing the buffer, by 10 frames at most.
  let stuff := decide (delayNew > farBufLen - 80 * s.aecmCore.mult)
  let nSampAdd := min (max (i32 (nSampSndCard / 2 - nSampFar)) 80) 800
  { s with farendBuf := if stuff then (s.farendBuf.moveReadPtr (-nSampAdd)).1 else s.farendBuf
           delayChange := s.delayChange || stuff }

/-! ## The far end -/

def getBufferFarendError (s : AecMobile α σ) (farend : Option (Nat → α)) (nrOfSamples : Nat) : Int :=
  if farend.isNone then nullPointerError
  else if s.initFlag ≠ initCheck then uninitializedError
  else if nrOfSamples ≠ 80 ∧ nrOfSamples ≠ 160 then badParameterError
  else 0

def bufferFarend (s : AecMobile α σ) (farend : Option (Nat → α)) (nrOfSamples : Nat) :
    AecMobile α σ × MobileResult α :=
  let err := s.getBufferFarendError farend nrOfSamples
  match farend with
  | some p =>
    if err ≠ 0 then s.done err
    else
      let s := if s.ecStartup then s else s.delayComp
      done { s with farendBuf := (s.farendBuf.writeBuffer ((List.range nrOfSamples).map p)).1 } 0
  | none => s.done err

/-! ## Start-up -/

/-- The sound card's delay is stable: `abs(firstVal - ms) < max(0.2 * ms, 8)`. Over the integers a
`double` can hold, `0.2 * ms` compares with an integer as `ms / 5` does. -/
def stable (firstVal ms : Int) : Bool := decide (5 * (firstVal - ms).natAbs < max ms (5 * sampMsNb))

section Check
variable (s : AecMobile α σ)

/-- The delay the reported ones are compared with. -/
def firstValue : Int := if s.counter = 0 then s.msInSndCardBuf else s.firstVal

def sumSoFar : Int := if s.counter = 0 then 0 else s.sum

def isStable : Bool := stable s.firstValue s.msInSndCardBuf

def nextSum : Int := if s.isStable then i16 (s.sumSoFar + s.msInSndCardBuf) else s.sumSoFar

def nextCounter : Int := if s.isStable then i16 (s.counter + 1) else 0

/-- 75% of the average value of the soundcard buffer, in blocks of 80 samples. -/
def averageBufSize : Int :=
  i16 (min ((i32 (3 * s.nextSum * s.aecmCore.mult)).tdiv (s.nextCounter * 40)) bufSizeFrames)

/-- The same for the last value alone. -/
def lastBufSize : Int := i16 (min ((i32 (3 * s.msInSndCardBuf * s.aecmCore.mult)).tdiv 40) bufSizeFrames)

/-- Wait for the sound card buffer to be stable, or for too long; with the values stored to
`checkBufSizeCtr`, `sum` and `counter` and the divisor used. -/
def checkBufSize (nBlocks10ms : Nat) : AecMobile α σ × List Int × List Int :=
  let ctr := s.checkBufSizeCtr + 1
  let settled := decide (6 ≤ toSize (s.nextCounter * nBlocks10ms))
  -- for really bad sound cards, don't disable echocanceller for more than 0.5 sec
  let late := decide (50 < toSize (i16 ctr * nBlocks10ms))
  ({ s with checkBufSizeCtr := i16 ctr
            firstVal := s.firstValue
            sum := s.nextSum
            counter := s.nextCounter
            bufSizeStart := if late then s.lastBufSize else if settled then s.averageBufSize else s.bufSizeStart
            checkBuffSize := !late && !settled },
    ctr :: (if s.isStable then [s.sumSoFar + s.msInSndCardBuf, s.counter + 1] else []),
    if settled then [s.nextCounter * 40] else [])

end Check

/-- Enable the AECM once the far end buffer holds about as much as the sound card. -/
def endStartup (s : AecMobile α σ) : AecMobile α σ :=
  if s.checkBuffSize then s
  else if s.filledBuffers = s.bufSizeStart then { s with ecStartup := false }
  else if s.filledBuffers > s.bufSizeStart then
    { s with farendBuf := (s.farendBuf.moveReadPtr (i32 s.available - s.bufSizeStart * 80)).1
             ecStartup := false }
  else s

/-! ## Cancelling -/

variable [Zero α]

/-- The 80 samples from `p` on. -/
def frameFrom (p : Nat → α) : Frame α := ⟨(List.range frameLen).map p, by simp⟩

/-- Row `i` of `farendOld`. -/
def oldRow (s : AecMobile α σ) (i : Nat) : Frame α :=
  frameFrom fun j => s.farendOld.getD (frameLen * i + j) 0

/-- The next 80 samples of the far end, or the last ones played when there are none. -/
def nextFarend (s : AecMobile α σ) (i : Nat) : AecMobile α σ × Frame α :=
  if s.filledBuffers > 0 then
    let r := s.farendBuf.readBuffer true [] frameLen
    let farend := frameFrom fun j => r.2.elements.getD j 0
    ({ s with farendBuf := r.1, farendOld := memcpy s.farendOld (frameLen * i) farend.1 }, farend)
  else (s, s.oldRow i)

/-- Frame `i` of the loop up to the call of `WebRtcAecm_ProcessFrame`, and the arguments of that. -/
def prepareFrame (s : AecMobile α σ) (noisy : Nat → α) (clean : Option (Nat → α)) (i : Nat) :
    AecMobile α σ × FrameCall α :=
  let far := s.nextFarend i
  -- Call buffer delay estimator when all data is extracted
  let atEnd := decide ((i = 0 ∧ far.1.sampFreq = 8000) ∨ (i = 1 ∧ far.1.sampFreq = 16000))
  (if atEnd then far.1.estBufDelay far.1.msInSndCardBuf else far.1,
    ⟨far.2, frameFrom fun j => noisy (frameLen * i + j), clean.map fun p => frameFrom fun j => p (frameLen * i + j)⟩)

variable (proc : BlockProc α σ)

/-- The frames `is` of the loop; `ret` is what the function returns after the last one. -/
def processLoop (noisy : Nat → α) (clean : Option (Nat → α)) (ret : Int) :
    List Nat → AecMobile α σ → AecMobile α σ × MobileResult α
  | [], s => s.done ret
  | i :: is, s =>
    let p := s.prepareFrame noisy clean i
    let r := p.1.aecmCore.processFrame proc p.2
    let s := { p.1 with aecmCore := r.1 }
    if r.2.ok then
      let rest := processLoop noisy clean ret is s
      (rest.1, { rest.2 with out := r.2.out ++ rest.2.out, handed := p.2 :: rest.2.handed })
    else (s, ⟨-1, [], [p.2], [], []⟩)

/-- The start-up branch: the near end is passed through. -/
def processStartup (s : AecMobile α σ) (out : List α) (nBlocks10ms : Nat) (ret : Int) :
    AecMobile α σ × MobileResult α :=
  let r := s.checkBufSize nBlocks10ms
  if s.checkBuffSize then (r.1.endStartup, ⟨ret, out, [], r.2.1, r.2.2⟩)
  else (s.endStartup, ⟨ret, out, [], [], []⟩)

/-- The checks at the head of `WebRtcAecm_Process`; the delay is clamped instead. -/
def processError (s : AecMobile α σ) (c : ProcessCall α) : Int :=
  if c.nearendNoisy.isNone ∨ c.hasOut = false then nullPointerError
  else if s.initFlag ≠ initCheck then uninitializedError
  else if c.nrOfSamples ≠ 80 ∧ c.nrOfSamples ≠ 160 then badParameterError
  else 0

/-- The reported delay as it is stored. -/
def clampMs (msInSndCardBuf : Int) : Int := i16 (min (max msInSndCardBuf 0) 500 + 10)

/-- `WebRtcAecm_Process` once the checks are passed. -/
def processChecked (s : AecMobile α σ) (noisy : Nat → α) (c : ProcessCall α) :
    AecMobile α σ × MobileResult α :=
  let ret := if c.msInSndCardBuf < 0 ∨ c.msInSndCardBuf > 500 then badParameterWarning else 0
  let s := { s with msInSndCardBuf := clampMs c.msInSndCardBuf }
  let nFrames := c.nrOfSamples / frameLen
  if s.ecStartup then
    s.processStartup ((List.range c.nrOfSamples).map (c.nearendClean.getD noisy))
      (nFrames / toSize s.aecmCore.mult) ret
  else processLoop proc noisy c.nearendClean ret (List.range nFrames) s

def withMs (s : AecMobile α σ) (ms : Int) : AecMobile α σ := { s with msInSndCardBuf := ms }

theorem processChecked_eq (s : AecMobile α σ) (noisy : Nat → α) (c : ProcessCall α) :
    s.processChecked proc noisy c =
      if s.ecStartup = true then
        (s.withMs (clampMs c.msInSndCardBuf)).processStartup
          ((List.range c.nrOfSamples).map (c.nearendClean.getD noisy))
          (c.nrOfSamples / frameLen / toSize s.aecmCore.mult)
          (if c.msInSndCardBuf < 0 ∨ c.msInSndCardBuf > 500 then badParameterWarning else 0)
      else processLoop proc noisy c.nearendClean
        (if c.msInSndCardBuf < 0 ∨ c.msInSndCardBuf > 500 then badParameterWarning else 0)
        (List.range (c.nrOfSamples / frameLen)) (s.withMs (clampMs c.msInSndCardBuf)) := rfl

def process (s : AecMobile α σ) (c : ProcessCall α) : AecMobile α σ × MobileResult α :=
  let err := s.processError c
  match c.nearendNoisy with
  | some noisy => if err ≠ 0 then s.done err else s.processChecked proc noisy c
  | none => s.done err

def step (s : AecMobile α σ) : MobileCall α → AecMobile α σ × MobileResult α
  | .bufferFarend farend nrOfSamples => s.bufferFarend farend nrOfSamples
  | .process c => s.process proc c

/-! ## Initialisation -/

/-- `memset(&farendOld[0][0], 0, 160)`: 160 bytes are 80 samples. -/
def init (initBlk : Int → σ → σ) (s : AecMobile α σ) (sampFreq : Int) : AecMobile α σ × Int :=
  if sampFreq ≠ 8000 ∧ sampFreq ≠ 16000 then (s, badParameterError)
  else
    let s := { s with sampFreq := sampFreq }
    match s.aecmCore.initCore initBlk s.sampFreq with
    | none => (s, unspecifiedError)
    | some core =>
      ({ s with aecmCore := core
                farendBuf := s.farendBuf.initBuffer
                initFlag := initCheck
                delayChange := true
                sum := 0
                counter := 0
                checkBuffSize := true
                firstVal := 0
                ecStartup := true
                bufSizeStart := 0
                checkBufSizeCtr := 0
                filtDelay := 0
                timeForDelayChange := 0
                knownDelay := 0
                lastDelayDiff := 0
                farendOld := memcpy s.farendOld 0 (List.replicate (160 / 2) 0) }, 0)

/-- Every frame handed to `WebRtcAecm_ProcessFrame` in a run, in order. -/
def handedFrames (s : AecMobile α σ) (calls : List (MobileCall α)) : List (FrameCall α) :=
  (Machine.trace (step proc) s calls).flatMap MobileResult.handed

end AecMobile

end WebRtc.Aecm
