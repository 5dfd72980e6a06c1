import WebRtc.Lib.RangeCoder

/-!
# iSAC arithmetic coder

| here | there |
| --- | --- |
| `encHistMulti` | `arith_routines_hist.c:18-77` |
| `decHistBisectMulti` | `arith_routines_hist.c:85-184` |
| `decHistOneStepMulti` | `arith_routines_hist.c:193-291` |
| `encTerminate` | `arith_routines.c:19-60` |

A call gets its data and tables as one list. The stream is the memory from its first byte on; that it is no
longer than the `STREAM_SIZE_MAX` bytes of the buffer is up to the caller, and then the encoder stays inside
(`encoder_inside`).
-/

namespace WebRtc.Isac

/-- `uint32_t`. -/
def wrap32 (x : ℕ) : ℕ := x % 4294967296

def sub32 (a b : ℕ) : ℕ := wrap32 (a + 4294967296 - wrap32 b)

structure Bitstr where
  stream : ℕ → UInt8
  wUpper : ℕ
  streamval : ℕ
  streamIndex : ℕ

/-- The part of the interval below a table entry, in products of 16 by 16 bits. -/
def scaled (wUpper entry : ℕ) : ℕ :=
  wrap32 (wrap32 (wUpper / 65536 * entry) + wrap32 (wUpper % 65536 * entry) / 65536)

/-! ## Encoder -/

/-- `while (!(++(*--stream_ptr)))`; `none` in front of the first byte. -/
def propagateCarry (stream : ℕ → UInt8) : ℕ → Option (ℕ → UInt8)
  | 0 => none
  | p + 1 =>
    let byte := stream p + 1
    let stream := Function.update stream p byte
    if byte = 0 then propagateCarry stream p else some stream

/-- After a number is added to `streamval`: the carry is handled. -/
def handleCarry (s : Bitstr) (streamval added : ℕ) : Option (ℕ → UInt8) :=
  if streamval < added then propagateCarry s.stream s.streamIndex else some s.stream

/-- Three bytes are the most that can be shifted out, unless the interval is empty and the loop does not end. -/
def renormalizeEnc : ℕ → Bitstr → Option Bitstr
  | 0, s => if s.wUpper < 16777216 then none else some s
  | fuel + 1, s =>
    if s.wUpper < 16777216 then
      renormalizeEnc fuel { s with
        wUpper := wrap32 (s.wUpper * 256)
        stream := Function.update s.stream s.streamIndex (UInt8.ofNat (s.streamval / 16777216))
        streamIndex := s.streamIndex + 1
        streamval := wrap32 (s.streamval * 256) }
    else some s

/-- One symbol. `none` when it is not in its table. -/
def encSymbol (s : Bitstr) (cdf : List ℕ) (data : ℕ) : Option Bitstr := do
  let cdfLo ← cdf[data]?
  let cdfHi ← cdf[data + 1]?
  let wLower := wrap32 (scaled s.wUpper cdfLo + 1)
  let wUpper := sub32 (scaled s.wUpper cdfHi) wLower
  let streamval := wrap32 (s.streamval + wLower)
  let stream ← handleCarry s streamval wLower
  renormalizeEnc 3 { s with stream := stream, wUpper := wUpper, streamval := streamval }

def encHistMulti (s : Bitstr) (symbols : List (List ℕ × ℕ)) : Option Bitstr :=
  symbols.foldlM (fun s symbol => encSymbol s symbol.1 symbol.2) s

/-- One call after the other. -/
def encodeCalls (s : Bitstr) (calls : List (List (List ℕ × ℕ))) : Option Bitstr := calls.foldlM encHistMulti s

/-- The memory and the number of the bytes in it. -/
def encTerminate (s : Bitstr) : Option ((ℕ → UInt8) × ℕ) :=
  if 0x01FFFFFF < s.wUpper then do
    let streamval := wrap32 (s.streamval + 0x01000000)
    let stream ← handleCarry s streamval 0x01000000
    let stream := Function.update stream s.streamIndex (UInt8.ofNat (streamval / 16777216))
    return (stream, s.streamIndex + 1)
  else do
    let streamval := wrap32 (s.streamval + 0x00010000)
    let stream ← handleCarry s streamval 0x00010000
    let stream := Function.update stream s.streamIndex (UInt8.ofNat (streamval / 16777216))
    let stream := Function.update stream (s.streamIndex + 1) (UInt8.ofNat (streamval / 65536 % 256))
    return (stream, s.streamIndex + 2)

/-! ## Decoders -/

inductive Failure
  /-- An entry outside a table is read, or a loop does not end. -/
  | undefined
  /-- The error code that is returned. -/
  | code (n : ℤ)
  deriving DecidableEq

/-- `scaled` of the entry `cdf_ptr` points to. -/
def scaledAt (wUpper : ℕ) (cdf : List ℕ) (cdfPtr : ℤ) : Except Failure ℕ :=
  if cdfPtr < 0 then .error .undefined
  else match cdf[cdfPtr.toNat]? with
    | none => .error .undefined
    | some entry => .ok (scaled wUpper entry)

/-- What the first call reads, and where the later ones go on. -/
def startDec (s : Bitstr) : Bitstr :=
  if s.streamIndex = 0 then
    { s with
      streamIndex := 3
      streamval := (s.stream 0).toNat * 16777216 + (s.stream 1).toNat * 65536 +
        (s.stream 2).toNat * 256 + (s.stream 3).toNat }
  else s

def renormalizeDec : ℕ → Bitstr → Except Failure Bitstr
  | 0, s => if s.wUpper < 16777216 then .error .undefined else .ok s
  | fuel + 1, s =>
    if s.wUpper < 16777216 then
      renormalizeDec fuel { s with
        streamval := wrap32 (s.streamval * 256) + (s.stream (s.streamIndex + 1)).toNat
        streamIndex := s.streamIndex + 1
        wUpper := wrap32 (s.wUpper * 256) }
    else .ok s

/-- The interval of the symbol is found: it is shifted to begin at zero. -/
def takeInterval (s : Bitstr) (wLower wUpper : ℕ) : Except Failure Bitstr :=
  let wLower := wrap32 (wLower + 1)
  renormalizeDec 3 { s with wUpper := sub32 wUpper wLower, streamval := sub32 s.streamval wLower }

/-- The number of the bytes in the original stream. -/
def streamLength (s : Bitstr) : ℤ :=
  if 0x01FFFFFF < s.wUpper then (s.streamIndex : ℤ) - 2 else (s.streamIndex : ℤ) - 1

/-- A step up from an entry below `streamval`, whose scaled value is `wTmp`. The entries that follow it
are `above`. -/
def stepUp (s : Bitstr) (cdfPtr : ℤ) (entry wTmp : ℕ) : List ℕ → Except Failure (ℤ × ℕ × ℕ)
  | [] => if entry = 65535 then .error (.code (-3)) else .error .undefined
  | next :: above =>
    if entry = 65535 then .error (.code (-3))
    else
      let wNext := scaled s.wUpper next
      if s.streamval ≤ wNext then .ok (cdfPtr, wTmp, wNext) else stepUp s (cdfPtr + 1) next wNext above

/-- A step down from entry `cdfPtr`, whose scaled value is `wTmp`. -/
def stepDown (s : Bitstr) (cdf : List ℕ) : ℕ → ℕ → Except Failure (ℤ × ℕ × ℕ)
  | 0, _ => .error (.code (-3))
  | cdfPtr + 1, wTmp => do
    let wNext ← scaledAt s.wUpper cdf cdfPtr
    if wNext < s.streamval then .ok (cdfPtr, wNext, wTmp) else stepDown s cdf cdfPtr wNext

/-- The symbol, and the ends of its interval. -/
def oneStep (s : Bitstr) (cdf : List ℕ) (initIndex : ℕ) : Except Failure (ℤ × ℕ × ℕ) :=
  match cdf[initIndex]? with
  | none => .error .undefined
  | some entry =>
    let wTmp := scaled s.wUpper entry
    if wTmp < s.streamval then stepUp s initIndex entry wTmp (cdf.drop (initIndex + 1))
    else stepDown s cdf initIndex wTmp

def oneStepSymbols : Bitstr → List (List ℕ × ℕ) → Except Failure (List ℤ × Bitstr)
  | s, [] => .ok ([], s)
  | s, (cdf, initIndex) :: rest => do
    let (data, wLower, wUpper) ← oneStep s cdf initIndex
    let s ← takeInterval s wLower wUpper
    let (symbols, s) ← oneStepSymbols s rest
    return (data :: symbols, s)

/-- The data, the stream and what is returned. -/
def decHistOneStepMulti (s : Bitstr) (tables : List (List ℕ × ℕ)) : Except Failure (List ℤ × Bitstr × ℤ) :=
  if s.wUpper = 0 then .error (.code (-2))
  else do
    let (data, s) ← oneStepSymbols (startDec s) tables
    return (data, s, streamLength s)

/-- The loop of the bisection, with `size_tmp` halved in each round. The interval of the last symbol is
the first guess for the lower end. -/
def bisectLoop (s : Bitstr) (cdf : List ℕ) : ℕ → ℕ → ℤ → ℕ → ℕ → Except Failure (ℤ × ℕ × ℕ)
  | 0, _, _, _, _ => .error .undefined
  | fuel + 1, sizeTmp, cdfPtr, wLower, wUpper => do
    let wTmp ← scaledAt s.wUpper cdf cdfPtr
    let sizeTmp := sizeTmp / 2
    if sizeTmp = 0 then
      if wTmp < s.streamval then return (cdfPtr, wTmp, wUpper) else return (cdfPtr - 1, wLower, wTmp)
    else if wTmp < s.streamval then bisectLoop s cdf fuel sizeTmp (cdfPtr + sizeTmp) wTmp wUpper
    else bisectLoop s cdf fuel sizeTmp (cdfPtr - sizeTmp) wLower wTmp

def bisect (s : Bitstr) (cdf : List ℕ) (cdfSize wLower : ℕ) : Except Failure (ℤ × ℕ × ℕ) :=
  let sizeTmp := cdfSize / 2
  bisectLoop s cdf (cdfSize + 1) sizeTmp ((sizeTmp : ℤ) - 1) wLower s.wUpper

def bisectSymbols : Bitstr → ℕ → List (List ℕ × ℕ) → Except Failure (List ℤ × Bitstr)
  | s, _, [] => .ok ([], s)
  | s, wLower, (cdf, cdfSize) :: rest => do
    let (data, wLower, wUpper) ← bisect s cdf cdfSize wLower
    let s ← takeInterval s wLower wUpper
    if s.wUpper = 0 then throw (.code (-2))
    let (symbols, s) ← bisectSymbols s (wrap32 (wLower + 1)) rest
    return (data :: symbols, s)

def decHistBisectMulti (s : Bitstr) (tables : List (List ℕ × ℕ)) : Except Failure (List ℤ × Bitstr × ℤ) :=
  if s.wUpper = 0 then .error (.code (-2))
  else do
    let (data, s) ← bisectSymbols (startDec s) 0 tables
    return (data, s, streamLength s)

end WebRtc.Isac
