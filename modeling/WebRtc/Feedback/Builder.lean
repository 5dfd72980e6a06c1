import WebRtc.Lib.CInt
import WebRtc.Lib.Machine
import WebRtc.Feedback.Chunk

/-!
# Building a transport feedback message (`transport_feedback.cc`)

| here | there |
| --- | --- |
| `Encoder`                    | the fields `status_chunks_` to `size_bytes_` that the encoding of the symbols changes |
| `Encoder.encode`             | `Encode` (:390), behind its first test; it calls itself at most twice in a row |
| `emitVectorChunk`, `emitRunLengthChunk` | `EmitVectorChunk` (:506), `EmitRunLengthChunk` (:522) |
| `emitRemaining`              | `EmitRemaining` (:493) |
| `Builder`, `withBase`        | the members of `TransportFeedback` and `WithBase` (:315) |
| `unwrap`, `isNewerSequenceNumber` | `Unwrap` (:284), `IsNewerSequenceNumber` (module_common_types.h:734) |
| `encode`, `addSymbol`, `withReceivedPacket` | `Encode`, `AddSymbol` (:373), `WithReceivedPacket` (:330) |

Times are integers. A difference that overflows `int64_t` is too large for a delta either way.
-/

namespace WebRtc.Feedback

open CInt

/-! ## Encoding symbols -/

def StatusSymbol.isTwoBit (s : StatusSymbol) : Bool := s == .receivedLargeDelta

/-- The bytes of the delta that goes with a symbol. -/
def StatusSymbol.deltaSize : StatusSymbol → Nat
  | .notReceived => 0
  | .receivedSmallDelta => 1
  | .receivedLargeDelta => 2

structure Encoder where
  statusChunks : List Chunk
  symbolVec : List StatusSymbol
  firstSymbolCardinality : Nat
  vecNeedsTwoBitSymbols : Bool
  sizeBytes : Nat

abbrev maxSizeBytes : Nat := 262144

namespace Encoder

def capacityOf (twoBit : Bool) : Nat := if twoBit then 7 else 14

/-- How often the first symbol is repeated, at least once. -/
def cardinality : List StatusSymbol → Nat
  | [] => 1
  | s :: rest => 1 + (rest.takeWhile (· == s)).length

variable (e : Encoder)

def capacity : Nat := capacityOf e.vecNeedsTwoBitSymbols

def emitVectorChunk : Encoder :=
  let chunk := if e.vecNeedsTwoBitSymbols then .twoBitVector (fill 7 e.symbolVec)
    else .oneBitVector (fill 14 e.symbolVec)
  let rest := e.symbolVec.drop e.capacity
  { e with statusChunks := e.statusChunks ++ [chunk], symbolVec := rest, firstSymbolCardinality := cardinality rest }

/-- Its assertions hold in every state that is reached (`Encoded.runAsserted`). -/
def emitRunLengthChunk : Encoder :=
  { e with
    statusChunks := e.statusChunks ++ [.runLength (e.symbolVec.headD .notReceived) e.firstSymbolCardinality]
    symbolVec := [] }

def emitRemaining : Encoder :=
  if e.symbolVec = [] then e
  else if e.firstSymbolCardinality > e.capacity then e.emitRunLengthChunk
  else e.emitVectorChunk

/-- The first symbol of a chunk. -/
def startVector (symbol : StatusSymbol) : Encoder × Bool :=
  if e.sizeBytes + symbol.deltaSize + 2 > maxSizeBytes then (e, false)
  else ({ e with
    symbolVec := [symbol]
    vecNeedsTwoBitSymbols := symbol.isTwoBit
    firstSymbolCardinality := 1
    sizeBytes := e.sizeBytes + symbol.deltaSize + 2 }, true)

/-- One more of the only symbol there is. -/
def extendRun (symbol : StatusSymbol) : Encoder :=
  let f := { e with firstSymbolCardinality := e.firstSymbolCardinality + 1 }
  let f := if f.firstSymbolCardinality ≤ e.capacity then { f with symbolVec := f.symbolVec ++ [symbol] }
    -- Max length for an RLE-chunk reached.
    else if f.firstSymbolCardinality = 0x1FFF then f.emitRunLengthChunk else f
  { f with sizeBytes := f.sizeBytes + symbol.deltaSize }

def appendVector (capacity : Nat) (symbol : StatusSymbol) : Encoder :=
  let f := { e with symbolVec := e.symbolVec ++ [symbol] }
  let f := if f.symbolVec.length = capacity then f.emitVectorChunk else f
  { f with sizeBytes := f.sizeBytes + symbol.deltaSize }

/-- `symbolVec` can only be encoded as a run, possibly a short one. -/
def RleCandidate : Prop :=
  e.symbolVec.length = e.firstSymbolCardinality ∨ e.firstSymbolCardinality > e.capacity

instance : Decidable e.RleCandidate := inferInstanceAs (Decidable (_ ∨ _))

/-- The vector gets a symbol of two bits: change its type, and empty it first if it is too long for that. -/
def needTwoBits (again : Encoder → StatusSymbol → Encoder × Bool) (symbol : StatusSymbol) : Encoder × Bool :=
  let f := { e with vecNeedsTwoBitSymbols := true }
  if e.symbolVec.length ≥ 7 then
    if e.sizeBytes + symbol.deltaSize + 2 > maxSizeBytes then (f, false)
    else
      let f := f.emitVectorChunk
      again (if f.symbolVec = [] then f else { f with sizeBytes := f.sizeBytes + 2 }) symbol
  else (f.appendVector 7 symbol, true)

def encodeLoop : Nat → Encoder → StatusSymbol → Encoder × Bool
  | 0, e, _ => (e, false)
  | fuel + 1, e, symbol =>
    if e.symbolVec = [] then e.startVector symbol
    else if e.sizeBytes + symbol.deltaSize > maxSizeBytes then (e, false)
    else if e.RleCandidate ∧ e.symbolVec.getLastD .notReceived = symbol then (e.extendRun symbol, true)
    -- Symbols in symbol_vec can only be RLE-encoded.
    else if e.RleCandidate ∧ e.firstSymbolCardinality ≥ e.capacity then encodeLoop fuel e.emitRunLengthChunk symbol
    else if symbol.isTwoBit ∧ e.vecNeedsTwoBitSymbols = false then e.needTwoBits (encodeLoop fuel) symbol
    else (e.appendVector e.capacity symbol, true)

def encode (symbol : StatusSymbol) : Encoder × Bool := encodeLoop 3 e symbol

/-- What is in `symbol_vec_`, or the run it stands for. -/
def pending : List StatusSymbol :=
  if e.symbolVec = [] then []
  else if e.firstSymbolCardinality > e.capacity then
    List.replicate e.firstSymbolCardinality (e.symbolVec.headD .notReceived)
  else e.symbolVec

/-- Every symbol so far. -/
def symbols : List StatusSymbol := e.statusChunks.flatMap Chunk.symbols ++ e.pending

end Encoder

/-! ## Received packets -/

structure Builder where
  packetSenderSsrc : UInt32
  mediaSourceSsrc : UInt32
  baseSeq : Int
  baseTime : Int
  feedbackSeq : UInt8
  receiveDeltas : List Int
  lastSeq : Int
  lastTimestamp : Int
  encoder : Encoder

/-- The constructor, the two SSRCs and the feedback count, and then `WithBase`. -/
def withBase (sender media : UInt32) (feedbackSeq : UInt8) (baseSequence : UInt16)
    (refTimestampUs : Int) : Builder where
  packetSenderSsrc := sender
  mediaSourceSsrc := media
  baseSeq := baseSequence.toNat
  baseTime := refTimestampUs.tdiv 64000
  feedbackSeq := feedbackSeq
  receiveDeltas := []
  lastSeq := baseSequence.toNat
  lastTimestamp := refTimestampUs.tdiv 64000 * 64000
  encoder := ⟨[], [], 0, false, 20⟩

def isNewerSequenceNumber (seq prev : UInt16) : Bool :=
  if seq - prev = 0x8000 then decide (seq > prev) else decide (seq ≠ prev ∧ seq - prev < 0x8000)

namespace Builder
variable (s : Builder)

def unwrap (sequenceNumber : UInt16) : Int :=
  let delta := (sequenceNumber.toNat : Int) - s.lastSeq
  if isNewerSequenceNumber sequenceNumber (UInt16.ofNat (s.lastSeq % 65536).toNat) then
    s.lastSeq + if delta < 0 then delta + 65536 else delta
  else s.lastSeq + if delta > 0 then delta - 65536 else delta

/-- `Encode`: at most 0xFFFF statuses, the one to come not counted. -/
def encode (symbol : StatusSymbol) : Builder × Bool :=
  if s.lastSeq - s.baseSeq + 1 > 0xFFFF then (s, false)
  else
    let r := s.encoder.encode symbol
    ({ s with encoder := r.1 }, r.2)

/-- `n` packets that have not been received. -/
def addMissing : Nat → Builder → Builder × Bool
  | 0, s => (s, true)
  | n + 1, s =>
    let r := s.encode .notReceived
    if r.2 then addMissing n { r.1 with lastSeq := r.1.lastSeq + 1 } else r

def addSymbol (symbol : StatusSymbol) (seq : Int) : Builder × Bool :=
  let r := addMissing (seq - 1 - s.lastSeq).toNat s
  if r.2 then
    let r := r.1.encode symbol
    if r.2 then ({ r.1 with lastSeq := seq }, true) else r
  else r

/-- Convert to ticks and round. -/
def ticks (timestamp : Int) : Int :=
  let deltaFull := timestamp - s.lastTimestamp
  (deltaFull + if deltaFull < 0 then -125 else 125).tdiv 250

def symbolOf (delta : Int) : StatusSymbol :=
  if 0 ≤ delta ∧ delta ≤ 0xFF then .receivedSmallDelta else .receivedLargeDelta

def withReceivedPacket (packet : UInt16 × Int) : Builder × Bool :=
  let seq := s.unwrap packet.1
  if seq ≠ s.baseSeq ∧ seq ≤ s.lastSeq then (s, false)
  else
    let delta := i16 (s.ticks packet.2)
    -- If larger than 16bit signed, we can't represent it - need new fb packet.
    if delta ≠ s.ticks packet.2 then (s, false)
    else
      let r := s.addSymbol (symbolOf delta) seq
      if r.2 then
        ({ r.1 with
          receiveDeltas := r.1.receiveDeltas ++ [delta]
          lastTimestamp := r.1.lastTimestamp + delta * 250 }, true)
      else r

end Builder

end WebRtc.Feedback
