import WebRtc.Feedback.Message
import WebRtc.Lib.Audit

/-!
# What the parser of transport feedback takes for granted (`transport_feedback.cc`)

| here | there |
| --- | --- |
| `parseCommonHeader`  | `RtcpParseCommonHeader` (rtcp_utility.cc:472), with what it reads |
| `decodedValues`      | the arguments of `DecodeSymbol` in the `ParseFrom` of each chunk (:148, :227, :270) |
| `auditBytes`, `auditChunk` | `ParseChunk` (:742) |
| `auditChunks`, `auditDeltas` | the two loops of `ParseFrom` (:654) |
| `auditStatuses`, `auditMessage`, `auditFrom` | `ParseFrom` |

The same parser as in the module on messages (`val_auditFrom`), with a log of what it reads and asserts. It
ends and reads inside of the buffer whatever stands there. `DecodeSymbol` asserts that it is not given the
reserved value 3, and `ParseFrom` that not more than three bytes are left behind the deltas; nothing is
done to reject a message of which this is not so.
-/

namespace WebRtc.Feedback

open Bytes WebRtc.Rtcp
open Audited

/-! ## The parser with its log -/

section Parser
variable (buf : List UInt8)

def parseCommonHeader : Audited (Option CommonHeader) := do
  if buf.length < 4 then return none
  let first ← reading 0 1 (byteAt buf 0)
  if first.toNat / 64 ≠ 2 then return none
  let packetType ← reading 1 1 (byteAt buf 1).toNat
  let words ← reading 2 2 ((read16At buf 2).toNat + 1)
  if buf.length < words * 4 then return none
  if first &&& 0x20 ≠ 0 then do
    if words * 4 ≤ 4 then return none
    let padding ← reading (words * 4 - 1) 1 (byteAt buf (words * 4 - 1)).toNat
    if 4 + padding > words * 4 then return none
    return some ⟨(first &&& 0x1f).toNat, packetType, words * 4 - padding - 4, padding⟩
  else return some ⟨(first &&& 0x1f).toNat, packetType, words * 4 - 4, 0⟩

/-- The fields of a chunk that stand for symbols. -/
def decodedValues (a b : UInt8) : List UInt8 :=
  if a &&& 0x80 ≠ 0 then
    if a &&& 0x40 ≠ 0 then
      [(a >>> 4) &&& 0x03, (a >>> 2) &&& 0x03, a &&& 0x03,
        (b >>> 6) &&& 0x03, (b >>> 4) &&& 0x03, (b >>> 2) &&& 0x03, b &&& 0x03]
    else
      [(a >>> 5) &&& 0x01, (a >>> 4) &&& 0x01, (a >>> 3) &&& 0x01, (a >>> 2) &&& 0x01, (a >>> 1) &&& 0x01, a &&& 0x01,
        (b >>> 7) &&& 0x01, (b >>> 6) &&& 0x01, (b >>> 5) &&& 0x01, (b >>> 4) &&& 0x01,
        (b >>> 3) &&& 0x01, (b >>> 2) &&& 0x01, (b >>> 1) &&& 0x01, b &&& 0x01]
  else [(a >>> 5) &&& 0x03]

/-- `DecodeSymbol` knows this value. -/
def Known (value : UInt8) : Prop := value = 0 ∨ value = 1 ∨ value = 2

instance (value : UInt8) : Decidable (Known value) := inferInstanceAs (Decidable (_ ∨ _))

/-- The two bytes of a chunk. -/
def auditBytes (a b : UInt8) (maxSize : Nat) : Audited (Option Chunk) :=
  if a &&& 0x80 ≠ 0 then do
    checkAll Known (decodedValues a b)
    return parseChunk a b maxSize
  else do
    -- `RunLengthChunk::ParseFrom` and the constructor.
    check (a &&& 0x80 = 0)
    checkAll Known (decodedValues a b)
    check ((parseRunLength a b).numSymbols ≤ 0x1FFF)
    return parseChunk a b maxSize

def auditChunk (index maxSize : Nat) : Audited (Option Chunk) := do
  let a ← reading index 1 (byteAt buf index)
  let b ← reading (index + 1) 1 (byteAt buf (index + 1))
  auditBytes a b maxSize

def auditChunks (endIndex : Nat) : Nat → Nat → Nat → Audited (Option (List Chunk × Nat))
  | 0, index, left => return if left = 0 then some ([], index) else none
  | fuel + 1, index, left =>
    if left = 0 then return some ([], index)
    else if index + 2 > endIndex then return none
    else do
      let chunk ← auditChunk buf index left
      match chunk with
      | none => return none
      | some chunk => do
        let r ← auditChunks endIndex fuel (index + 2) (left - chunk.numSymbols)
        return r.map fun r => (chunk :: r.1, r.2)

/-- The deltas and the index behind them. -/
def auditDeltas (endIndex : Nat) : Nat → List StatusSymbol → Audited (Option (List Int × Nat))
  | index, [] => return some ([], index)
  | index, .receivedSmallDelta :: rest =>
    if index + 1 > endIndex then return none
    else do
      let delta ← reading index 1 ((byteAt buf index).toNat : Int)
      let r ← auditDeltas endIndex (index + 1) rest
      return r.map fun r => (delta :: r.1, r.2)
  | index, .receivedLargeDelta :: rest =>
    if index + 2 > endIndex then return none
    else do
      let delta ← reading index 2 (readS16 buf index)
      let r ← auditDeltas endIndex (index + 2) rest
      return r.map fun r => (delta :: r.1, r.2)
  | index, .notReceived :: rest => auditDeltas endIndex index rest

/-- What follows the chunks. -/
def auditStatuses (endIndex index : Nat) (numPackets : Nat) (packet : Builder) : Audited (Option Builder) := do
  check (numPackets = packet.getStatusVector.length)
  let deltas ← auditDeltas buf endIndex index packet.getStatusVector
  match deltas with
  | none => return none
  | some (deltas, index) => do
    check (index ≥ endIndex - 3)
    check (index ≤ endIndex)
    return some { packet with receiveDeltas := deltas }

/-- What follows the common header of a message that ends at `endIndex`, with so much fuel for the loop over
the chunks. -/
def auditMessage (endIndex fuel : Nat) : Audited (Option Builder) := do
  let packetSenderSsrc ← reading 4 4 (read32At buf 4)
  let mediaSourceSsrc ← reading 8 4 (read32At buf 8)
  let baseSeq ← reading 12 2 (read16At buf 12).toNat
  let numPackets ← reading 14 2 (read16At buf 14).toNat
  let baseTime ← reading 16 3 (readS24 buf 16)
  let feedbackSeq ← reading 19 1 (byteAt buf 19)
  -- Empty feedback messages not allowed.
  if numPackets = 0 then return none
  let chunks ← auditChunks buf endIndex fuel 20 numPackets
  match chunks with
  | none => return none
  | some (chunks, index) =>
    auditStatuses buf endIndex index numPackets
      { packetSenderSsrc, mediaSourceSsrc, baseSeq, baseTime, feedbackSeq
        receiveDeltas := []
        lastSeq := baseSeq + numPackets - 1
        lastTimestamp := -1
        encoder := ⟨chunks, [], 0, false, 20⟩ }

def auditFrom (fuel : Nat) : Audited (Option Builder) :=
  if buf.length < 22 then return none
  else do
    let header ← parseCommonHeader buf
    match header with
    | none => return none
    | some header =>
      if header.countOrFormat ≠ 15 then return none
      else if header.packetType ≠ 205 then return none
      else auditMessage buf (4 + header.payloadSizeBytes) fuel

end Parser

/-! ## What stands in the buffer -/

/-- The values of all symbols of a chunk: those of a vector, or that of a run as often as the run is long. -/
def statuses (a b : UInt8) : List UInt8 :=
  if a &&& 0x80 ≠ 0 then decodedValues a b
  else List.replicate ((a &&& 0x1F).toNat * 256 + b.toNat) ((a >>> 5) &&& 0x03)

/-- A run is not longer than `left`. -/
def RunFits (a b : UInt8) (left : Nat) : Prop := a &&& 0x80 = 0 → (statuses a b).length ≤ left

section Message
variable (buf : List UInt8)

/-- `packet status count` of the message. -/
def announced : Nat := (read16At buf 14).toNat

/-- The symbols of chunk `k`. -/
def chunkStatuses (k : Nat) : List UInt8 := statuses (byteAt buf (20 + 2 * k)) (byteAt buf (20 + 2 * k + 1))

/-- The number of symbols before chunk `k`. -/
def before (k : Nat) : Nat := ((List.range k).map fun j => (chunkStatuses buf j).length).sum

/-- The announced symbols, as the first `k` chunks have them. -/
def announcedStatuses (k : Nat) : List UInt8 := ((List.range k).flatMap (chunkStatuses buf)).take (announced buf)

/-- A small delta takes one byte and a large one two. -/
def deltaLength (l : List UInt8) : Nat := (l.map fun v => if v = 1 then 1 else if v = 2 then 2 else 0).sum

/-- The buffer begins with the header of a feedback message that ends at `endIndex`. -/
structure Opened (endIndex : Nat) : Prop where
  long : 22 ≤ buf.length
  header : ∃ header, rtcpParseCommonHeader buf 0 buf.length = some header ∧ header.countOrFormat = 15 ∧
    header.packetType = 205 ∧ endIndex = 4 + header.payloadSizeBytes
  some : announced buf ≠ 0

/-- No chunk in the message that begins before all announced symbols are read has the reserved value. -/
def NoneReserved (endIndex : Nat) : Prop :=
  ∀ k, 20 + 2 * k + 2 ≤ endIndex → before buf k < announced buf →
    ∀ v ∈ decodedValues (byteAt buf (20 + 2 * k)) (byteAt buf (20 + 2 * k + 1)), Known v

/-- The announced symbols from chunk `first` on are in the chunks before `k`, and need all of these. -/
structure Spans (endIndex first k : Nat) : Prop where
  needed : ∀ j, first ≤ j → j < k → before buf j < announced buf
  covered : announced buf ≤ before buf k
  runs : ∀ j, first ≤ j → j < k →
    RunFits (byteAt buf (20 + 2 * j)) (byteAt buf (20 + 2 * j + 1)) (announced buf - before buf j)
  inside : first < k → 20 + 2 * k ≤ endIndex

/-- A message whose chunks and deltas are all there has at most three bytes behind them. -/
def NoSurplus (endIndex : Nat) : Prop :=
  ∀ k, Spans buf endIndex 0 k → 20 + 2 * k + deltaLength (announcedStatuses buf k) ≤ endIndex →
    endIndex ≤ 20 + 2 * k + deltaLength (announcedStatuses buf k) + 3

end Message

variable {buf : List UInt8} {endIndex : Nat}

theorem before_succ (k : Nat) : before buf (k + 1) = before buf k + (chunkStatuses buf k).length := by
  rw [before, before, List.range_succ, List.map_append, List.sum_append, List.map_singleton, List.sum_singleton]

theorem before_mono {j k : Nat} (h : j ≤ k) : before buf j ≤ before buf k := by
  induction h with
  | refl => exact le_refl _
  | step _ ih =>
    rw [before_succ]
    omega

/-! ## Chunks -/

theorem parseOneBitVector_symbols (a b : UInt8) (hv : a &&& 0x80 ≠ 0) (ht : ¬ a &&& 0x40 ≠ 0) :
    (parseOneBitVector a b).symbols = (statuses a b).map decodeSymbol := by
  rw [statuses, if_pos hv, decodedValues, if_pos hv, if_neg ht]
  simp [parseOneBitVector, Chunk.symbols, List.ofFn_succ]

theorem parseTwoBitVector_symbols (a b : UInt8) (hv : a &&& 0x80 ≠ 0) (ht : a &&& 0x40 ≠ 0) :
    (parseTwoBitVector a b).symbols = (statuses a b).map decodeSymbol := by
  rw [statuses, if_pos hv, decodedValues, if_pos hv, if_pos ht]
  simp [parseTwoBitVector, Chunk.symbols, List.ofFn_succ]

theorem parseRunLength_symbols (a b : UInt8) (hv : ¬ a &&& 0x80 ≠ 0) :
    (parseRunLength a b).symbols = (statuses a b).map decodeSymbol := by
  rw [statuses, if_neg hv, parseRunLength, Chunk.symbols, List.map_replicate]

/-- What `ParseChunk` returns. -/
theorem parseChunk_cases (a b : UInt8) (left : Nat) :
    parseChunk a b left = none ∧ ¬ RunFits a b left ∨
      ∃ c, parseChunk a b left = some c ∧ RunFits a b left ∧ c.symbols = (statuses a b).map decodeSymbol := by
  unfold parseChunk RunFits
  by_cases hv : a &&& 0x80 ≠ 0
  · right
    rw [if_pos hv]
    by_cases ht : a &&& 0x40 ≠ 0
    · rw [if_pos ht]
      exact ⟨_, rfl, fun h => absurd h hv, parseTwoBitVector_symbols a b hv ht⟩
    · rw [if_neg ht]
      exact ⟨_, rfl, fun h => absurd h hv, parseOneBitVector_symbols a b hv ht⟩
  · rw [if_neg hv]
    have hsyms := parseRunLength_symbols a b hv
    have hsize : (statuses a b).length = (parseRunLength a b).numSymbols := by
      rw [← length_symbols, hsyms, List.length_map]
    rw [hsize]
    by_cases hlong : (parseRunLength a b).numSymbols > left
    · left
      rw [if_pos hlong]
      exact ⟨rfl, fun h => absurd (h (not_not.1 hv)) (by omega)⟩
    · right
      rw [if_neg hlong]
      exact ⟨_, rfl, fun _ => by omega, hsyms⟩

theorem run_le (a b : UInt8) : (parseRunLength a b).numSymbols ≤ 0x1FFF := by
  have ha : (a &&& 0x1F).toNat ≤ 0x1F := by
    revert a
    decide +kernel
  have hb := b.toNat_lt
  show (a &&& 0x1F).toNat * 256 + b.toNat ≤ 0x1FFF
  omega

theorem auditBytes_spec (a b : UInt8) (left : Nat) :
    (auditBytes a b left).val = parseChunk a b left ∧ (∀ p, .read p ∉ (auditBytes a b left).log) ∧
      (AllHold (auditBytes a b left).log ↔ ∀ v ∈ decodedValues a b, Known v) := by
  rw [auditBytes]
  by_cases hv : a &&& 0x80 ≠ 0
  · rw [if_pos hv]
    exact ⟨rfl, by simp [checkAll], by simp⟩
  · rw [if_neg hv]
    have hrun := run_le a b
    exact ⟨rfl, by simp [checkAll, check], by simp [not_not.1 hv, hrun]⟩

theorem val_auditChunk (index left : Nat) :
    (auditChunk buf index left).val = parseChunk (byteAt buf index) (byteAt buf (index + 1)) left :=
  (auditBytes_spec _ _ _).1

theorem readsWithin_auditChunk (index left : Nat) :
    ReadsWithin index (index + 2) (auditChunk buf index left).log := by
  rw [auditChunk, log_bind, log_bind]
  refine (readsWithin_reading _ (le_refl _) (by omega)).append ((readsWithin_reading _ (by omega) (by omega)).append ?_)
  intro p hp
  exact absurd hp ((auditBytes_spec _ _ _).2.1 p)

theorem allHold_auditChunk (index left : Nat) : AllHold (auditChunk buf index left).log ↔
    ∀ v ∈ decodedValues (byteAt buf index) (byteAt buf (index + 1)), Known v := by
  rw [auditChunk, log_bind, log_bind, allHold_append, allHold_append]
  simp only [allHold_reading, true_and]
  exact (auditBytes_spec _ _ _).2.2

/-! ## The loop over the chunks -/

theorem val_auditChunks (fuel index left : Nat) :
    (auditChunks buf endIndex fuel index left).val = parseChunks buf endIndex fuel index left := by
  induction fuel generalizing index left with
  | zero => rfl
  | succ fuel ih =>
    rw [auditChunks, parseChunks]
    by_cases h0 : left = 0
    · rw [if_pos h0, if_pos h0]
      rfl
    · rw [if_neg h0, if_neg h0]
      by_cases hend : index + 2 > endIndex
      · rw [if_pos hend, if_pos hend]
        rfl
      · rw [if_neg hend, if_neg hend, val_bind, val_auditChunk]
        cases parseChunk (byteAt buf index) (byteAt buf (index + 1)) left with
        | none => rfl
        | some chunk =>
          dsimp only
          rw [val_bind, val_pure, ih]

/-- The loop is over before its fuel is. -/
theorem auditChunks_succ (fuel : Nat) {index : Nat} (hfuel : endIndex < index + 2 + 2 * fuel) (left : Nat) :
    auditChunks buf endIndex (fuel + 1) index left = auditChunks buf endIndex fuel index left := by
  induction fuel generalizing index left with
  | zero =>
    rw [auditChunks, auditChunks, if_pos (show index + 2 > endIndex by omega)]
    split <;> rfl
  | succ fuel ih =>
    rw [auditChunks, auditChunks]
    simp only [ih (show endIndex < index + 2 + 2 + 2 * fuel by omega)]

theorem auditChunks_fuel {fuel : Nat} {index : Nat} (hfuel : endIndex < index + 2 + 2 * fuel) (left more : Nat) :
    auditChunks buf endIndex (fuel + more) index left = auditChunks buf endIndex fuel index left := by
  induction more with
  | zero => rfl
  | succ more ih => rw [← Nat.add_assoc, auditChunks_succ _ (by omega), ih]

/-- What the loop does from chunk `k` on. -/
structure ChunksSpec (buf : List UInt8) (endIndex k : Nat) (r : Audited (Option (List Chunk × Nat))) : Prop where
  reads : ReadsWithin (20 + 2 * k) endIndex r.log
  holds : AllHold r.log ↔ ∀ j, k ≤ j → 20 + 2 * j + 2 ≤ endIndex → before buf j < announced buf →
    ∀ v ∈ decodedValues (byteAt buf (20 + 2 * j)) (byteAt buf (20 + 2 * j + 1)), Known v
  found : ∀ chunks index, r.val = some (chunks, index) → ∃ n, Spans buf endIndex k (k + n) ∧
    index = 20 + 2 * (k + n) ∧
    chunks.flatMap Chunk.symbols = ((List.range' k n).flatMap (chunkStatuses buf)).map decodeSymbol
  complete : ∀ n, Spans buf endIndex k (k + n) → r.val ≠ none

/-- The loop returns at the chunk that `ParseChunk` refuses. -/
theorem auditChunks_stop (fuel : Nat) {k left : Nat} (h0 : left ≠ 0) (hin : 20 + 2 * k + 2 ≤ endIndex)
    (hnone : parseChunk (byteAt buf (20 + 2 * k)) (byteAt buf (20 + 2 * k + 1)) left = none) :
    auditChunks buf endIndex (fuel + 1) (20 + 2 * k) left = ⟨none, (auditChunk buf (20 + 2 * k) left).log⟩ := by
  have hval := @val_auditChunk buf (20 + 2 * k) left
  rw [hnone] at hval
  rw [auditChunks, if_neg h0, if_neg (Nat.not_lt.2 hin)]
  generalize auditChunk buf (20 + 2 * k) left = r at hval
  ext1
  · rw [val_bind, hval]
    rfl
  · rw [log_bind, hval]
    simp

/-- The loop goes on behind the chunk that `ParseChunk` takes. -/
theorem auditChunks_next (fuel : Nat) {k left left' : Nat} {c : Chunk} (h0 : left ≠ 0)
    (hin : 20 + 2 * k + 2 ≤ endIndex)
    (hsome : parseChunk (byteAt buf (20 + 2 * k)) (byteAt buf (20 + 2 * k + 1)) left = some c)
    (hleft : left - c.numSymbols = left') :
    auditChunks buf endIndex (fuel + 1) (20 + 2 * k) left =
      ⟨(auditChunks buf endIndex fuel (20 + 2 * (k + 1)) left').val.map fun r => (c :: r.1, r.2),
        (auditChunk buf (20 + 2 * k) left).log ++ (auditChunks buf endIndex fuel (20 + 2 * (k + 1)) left').log⟩ := by
  have hval := @val_auditChunk buf (20 + 2 * k) left
  have hindex : 20 + 2 * k + 2 = 20 + 2 * (k + 1) := by omega
  rw [hsome] at hval
  rw [auditChunks, if_neg h0, if_neg (Nat.not_lt.2 hin)]
  generalize auditChunk buf (20 + 2 * k) left = r at hval
  ext1
  · rw [val_bind, hval]
    dsimp only
    rw [hleft, hindex]
    rfl
  · rw [log_bind, hval]
    dsimp only
    rw [hleft, hindex, log_bind, log_pure, List.append_nil]

/-- One more chunk in front. -/
theorem Spans.cons {k n : Nat} (h : Spans buf endIndex (k + 1) (k + 1 + n)) (hlt : before buf k < announced buf)
    (hin : 20 + 2 * k + 2 ≤ endIndex)
    (hfits : RunFits (byteAt buf (20 + 2 * k)) (byteAt buf (20 + 2 * k + 1)) (announced buf - before buf k)) :
    Spans buf endIndex k (k + (n + 1)) := by
  rw [show k + (n + 1) = k + 1 + n by omega]
  refine ⟨?_, h.covered, ?_, ?_⟩
  · intro j hj hlt'
    rcases Nat.eq_or_lt_of_le hj with rfl | hj
    · exact hlt
    · exact h.needed j hj hlt'
  · intro j hj hlt'
    rcases Nat.eq_or_lt_of_le hj with rfl | hj
    · exact hfits
    · exact h.runs j hj hlt'
  · intro _
    have hinside := h.inside
    by_cases hn : n = 0
    · subst hn
      omega
    · exact hinside (by omega)

theorem Spans.tail {k n : Nat} (h : Spans buf endIndex k (k + (n + 1))) :
    Spans buf endIndex (k + 1) (k + 1 + n) := by
  rw [show k + (n + 1) = k + 1 + n by omega] at h
  exact ⟨fun j hj => h.needed j (by omega), h.covered, fun j hj => h.runs j (by omega), fun hlt => h.inside (by omega)⟩

/-- While symbols are missing there is a chunk. -/
theorem Spans.pos {k n : Nat} (h : Spans buf endIndex k (k + n)) (hlt : before buf k < announced buf) : n ≠ 0 := by
  intro hn
  have hcov := h.covered
  rw [hn, Nat.add_zero] at hcov
  omega

/-- All symbols are read. -/
theorem ChunksSpec.done {k : Nat} (h0 : announced buf ≤ before buf k) :
    ChunksSpec buf endIndex k (pure (some ([], 20 + 2 * k))) := by
  refine ⟨readsWithin_nil _ _, ?_, ?_, fun _ _ => Option.some_ne_none _⟩
  · simp only [log_pure, allHold_nil, true_iff]
    intro j hj _ hlt
    have hmono := @before_mono buf _ _ hj
    omega
  · rintro chunks index heq
    cases heq
    exact ⟨0, ⟨fun j hj hlt => by omega, h0, fun j hj hlt => by omega, fun h => by omega⟩, rfl, rfl⟩

/-- The message is over. -/
theorem ChunksSpec.over {k : Nat} (h0 : before buf k < announced buf) (hend : endIndex < 20 + 2 * k + 2) :
    ChunksSpec buf endIndex k (pure none) := by
  refine ⟨readsWithin_nil _ _, ?_, fun chunks index heq => (by cases heq), ?_⟩
  · simp only [log_pure, allHold_nil, true_iff]
    intro j hj hin _
    omega
  · intro n h
    have hn := h.pos h0
    have hin := h.inside
    omega

/-- A run that is too long. -/
theorem ChunksSpec.tooLong {k : Nat} (h0 : before buf k < announced buf) (hin : 20 + 2 * k + 2 ≤ endIndex)
    (hlong : ¬ RunFits (byteAt buf (20 + 2 * k)) (byteAt buf (20 + 2 * k + 1)) (announced buf - before buf k)) :
    ChunksSpec buf endIndex k ⟨none, (auditChunk buf (20 + 2 * k) (announced buf - before buf k)).log⟩ := by
  have hpast : announced buf < before buf (k + 1) := by
    have hrun := hlong
    rw [RunFits, Classical.not_imp] at hrun
    rw [before_succ, chunkStatuses]
    omega
  have hchunk := (@readsWithin_auditChunk buf (20 + 2 * k) (announced buf - before buf k)).mono (le_refl _) hin
  refine ⟨hchunk, ?_, fun chunks index heq => (by cases heq), ?_⟩
  · rw [allHold_auditChunk]
    constructor
    · intro h j hj _ hlt
      rcases Nat.eq_or_lt_of_le hj with rfl | hj
      · exact h
      · have hmono := @before_mono buf (k + 1) j hj
        omega
    · exact fun h => h k (le_refl _) hin h0
  · intro n h
    have hn := h.pos h0
    exact absurd (h.runs k (le_refl _) (by omega)) hlong

/-- A chunk that is taken, and what the loop does behind it. -/
theorem ChunksSpec.next {k : Nat} {c : Chunk} {r : Audited (Option (List Chunk × Nat))}
    (hrest : ChunksSpec buf endIndex (k + 1) r) (h0 : before buf k < announced buf) (hin : 20 + 2 * k + 2 ≤ endIndex)
    (hfits : RunFits (byteAt buf (20 + 2 * k)) (byteAt buf (20 + 2 * k + 1)) (announced buf - before buf k))
    (hsyms : c.symbols = (chunkStatuses buf k).map decodeSymbol) :
    ChunksSpec buf endIndex k ⟨r.val.map fun r => (c :: r.1, r.2),
      (auditChunk buf (20 + 2 * k) (announced buf - before buf k)).log ++ r.log⟩ := by
  have hchunk := (@readsWithin_auditChunk buf (20 + 2 * k) (announced buf - before buf k)).mono (le_refl _) hin
  refine ⟨hchunk.append (hrest.reads.mono (by omega) (le_refl _)), ?_, ?_, ?_⟩
  · rw [allHold_append, allHold_auditChunk, hrest.holds]
    constructor
    · rintro ⟨hk, hlater⟩ j hj hin hlt
      rcases Nat.eq_or_lt_of_le hj with rfl | hj
      · exact hk
      · exact hlater j hj hin hlt
    · intro h
      exact ⟨h k (le_refl _) hin h0, fun j hj => h j (by omega)⟩
  · intro chunks index hfound
    obtain ⟨⟨cs, i⟩, hcs, hpair⟩ := Option.map_eq_some_iff.1 hfound
    cases hpair
    obtain ⟨n, hspan, hindex, hall⟩ := hrest.found cs i hcs
    refine ⟨n + 1, hspan.cons h0 hin hfits, by rw [hindex]; omega, ?_⟩
    rw [List.flatMap_cons, hsyms, hall, List.range'_succ, List.flatMap_cons, List.map_append]
  · intro n h
    have hn := h.pos h0
    obtain ⟨n, rfl⟩ := Nat.exists_eq_succ_of_ne_zero hn
    have hne := hrest.complete n h.tail
    dsimp only
    rwa [Ne, Option.map_eq_none_iff]

theorem auditChunks_spec (fuel : Nat) {k : Nat} (hfuel : endIndex < 20 + 2 * k + 2 + 2 * fuel) :
    ChunksSpec buf endIndex k (auditChunks buf endIndex fuel (20 + 2 * k) (announced buf - before buf k)) := by
  induction fuel generalizing k with
  | zero =>
    rw [auditChunks]
    by_cases h0 : announced buf - before buf k = 0
    · rw [if_pos h0]
      exact ChunksSpec.done (by omega)
    · rw [if_neg h0]
      exact ChunksSpec.over (by omega) hfuel
  | succ fuel ih =>
    by_cases h0 : announced buf - before buf k = 0
    · rw [auditChunks, if_pos h0]
      exact ChunksSpec.done (by omega)
    have hlt : before buf k < announced buf := by omega
    by_cases hend : 20 + 2 * k + 2 > endIndex
    · rw [auditChunks, if_neg h0, if_pos hend]
      exact ChunksSpec.over hlt hend
    have hin : 20 + 2 * k + 2 ≤ endIndex := Nat.not_lt.1 hend
    rcases parseChunk_cases (byteAt buf (20 + 2 * k)) (byteAt buf (20 + 2 * k + 1)) (announced buf - before buf k) with
      ⟨hnone, hlong⟩ | ⟨c, hsome, hfits, hsyms⟩
    · rw [auditChunks_stop fuel h0 hin hnone]
      exact ChunksSpec.tooLong hlt hin hlong
    · have hsize : c.numSymbols = (chunkStatuses buf k).length := by
        rw [← length_symbols, hsyms, List.length_map]
        rfl
      have hleft : announced buf - before buf k - c.numSymbols = announced buf - before buf (k + 1) := by
        rw [before_succ]
        omega
      rw [auditChunks_next fuel h0 hin hsome hleft]
      exact (ih (by omega)).next hlt hin hfits hsyms

theorem Spans.unique {k k' : Nat} (h : Spans buf endIndex 0 k) (h' : Spans buf endIndex 0 k') : k = k' := by
  rcases Nat.lt_trichotomy k k' with hlt | heq | hgt
  · have h1 := h'.needed k (Nat.zero_le _) hlt
    have h2 := h.covered
    omega
  · exact heq
  · have h1 := h.needed k' (Nat.zero_le _) hgt
    have h2 := h'.covered
    omega

/-! ## The loop over the deltas -/

theorem deltaLength_eq (l : List UInt8) : deltaLength l = deltaBytes (l.map decodeSymbol) := by
  have hsize : ∀ v : UInt8, (decodeSymbol v).deltaSize = if v = 1 then 1 else if v = 2 then 2 else 0 := by
    intro v
    unfold decodeSymbol
    by_cases h0 : v = 0
    · subst h0
      rfl
    · rw [if_neg h0]
      split
      · rfl
      · split <;> rfl
  rw [deltaLength, deltaBytes, List.map_map]
  congr 2
  funext v
  exact (hsize v).symm

theorem val_auditDeltas (symbols : List StatusSymbol) (index : Nat) :
    (auditDeltas buf endIndex index symbols).val.map Prod.fst = parseDeltas buf endIndex index symbols := by
  induction symbols generalizing index with
  | nil => rfl
  | cons s rest ih =>
    cases s with
    | notReceived => exact ih index
    | receivedSmallDelta =>
      rw [auditDeltas, parseDeltas]
      split
      · rfl
      · rw [← ih, val_bind, val_bind, val_pure, Option.map_map, Option.map_map]
        rfl
    | receivedLargeDelta =>
      rw [auditDeltas, parseDeltas]
      split
      · rfl
      · rw [← ih, val_bind, val_bind, val_pure, Option.map_map, Option.map_map]
        rfl

structure DeltasSpec (buf : List UInt8) (endIndex index : Nat) (symbols : List StatusSymbol)
    (r : Audited (Option (List Int × Nat))) : Prop where
  reads : ReadsWithin index endIndex r.log
  holds : AllHold r.log
  found : ∀ deltas i, r.val = some (deltas, i) →
    i = index + deltaBytes symbols ∧ i ≤ endIndex ∧ deltas.length = symbols.countP fun s => s ≠ .notReceived
  complete : index + deltaBytes symbols ≤ endIndex → r.val ≠ none

/-- One delta of `n` bytes in front of the others, if there is room for it. -/
theorem deltasSpec_cons {index n : Nat} (delta : Int) {s : StatusSymbol} {symbols : List StatusSymbol}
    {r : Audited (Option (List Int × Nat))} (hs : s ≠ .notReceived) (hn : s.deltaSize = n)
    (h : index + n ≤ endIndex → DeltasSpec buf endIndex (index + n) symbols r) :
    DeltasSpec buf endIndex index (s :: symbols)
      (if index + n > endIndex then pure none
      else do
        let delta ← reading index n delta
        let r ← r
        return r.map fun r => (delta :: r.1, r.2)) := by
  have hbytes : deltaBytes (s :: symbols) = n + deltaBytes symbols := by
    rw [deltaBytes, List.map_cons, List.sum_cons, hn]
    rfl
  by_cases hend : index + n > endIndex
  · rw [if_pos hend]
    refine ⟨readsWithin_nil _ _, allHold_nil, fun deltas i hfound => (by cases hfound), fun hle => ?_⟩
    omega
  · have hin := Nat.not_lt.1 hend
    have h := h hin
    rw [if_neg hend]
    refine ⟨?_, ?_, ?_, ?_⟩
    · rw [log_bind, log_bind, log_pure, List.append_nil]
      exact (readsWithin_reading _ (le_refl _) hin).append (h.reads.mono (by omega) (le_refl _))
    · rw [log_bind, log_bind, log_pure, List.append_nil, allHold_append]
      exact ⟨allHold_reading _ _ _, h.holds⟩
    · intro deltas i hfound
      obtain ⟨⟨ds, i'⟩, hds, hpair⟩ := Option.map_eq_some_iff.1 hfound
      cases hpair
      obtain ⟨hi, hle, hlen⟩ := h.found ds _ hds
      refine ⟨by omega, hle, ?_⟩
      rw [List.length_cons, hlen, List.countP_cons_of_pos (by simpa using hs)]
    · intro hle
      have hne := h.complete (by omega)
      rw [val_bind, val_bind, val_pure]
      rwa [Ne, Option.map_eq_none_iff]

theorem auditDeltas_spec (symbols : List StatusSymbol) {index : Nat} (hindex : index ≤ endIndex) :
    DeltasSpec buf endIndex index symbols (auditDeltas buf endIndex index symbols) := by
  induction symbols generalizing index with
  | nil =>
    refine ⟨readsWithin_nil _ _, allHold_nil, ?_, fun _ => Option.some_ne_none _⟩
    rintro deltas i heq
    cases heq
    exact ⟨rfl, hindex, rfl⟩
  | cons s rest ih =>
    cases s with
    | notReceived =>
      obtain ⟨hreads, hholds, hfound, hcomplete⟩ := ih hindex
      have hbytes : deltaBytes (.notReceived :: rest) = deltaBytes rest := by
        rw [deltaBytes, List.map_cons, List.sum_cons]
        exact Nat.zero_add _
      refine ⟨hreads, hholds, ?_, ?_⟩
      · rw [hbytes, List.countP_cons_of_neg (by simp)]
        exact hfound
      · rw [hbytes]
        exact hcomplete
    | receivedSmallDelta => exact deltasSpec_cons _ (by decide) rfl fun hin => ih hin
    | receivedLargeDelta => exact deltasSpec_cons _ (by decide) rfl fun hin => ih hin

/-! ## The header -/

theorem parseCommonHeader_spec :
    Returns 0 buf.length (parseCommonHeader buf) (rtcpParseCommonHeader buf 0 buf.length) := by
  rw [parseCommonHeader, rtcpParseCommonHeader]
  dsimp only
  rw [Nat.zero_add, Nat.zero_add, Nat.zero_add]
  by_cases h4 : buf.length < 4
  · rw [if_pos h4, if_pos h4]
    exact returns_pure _ _ _
  rw [if_neg h4, if_neg h4]
  refine .reading_bind (Nat.zero_le _) (by omega) ?_
  by_cases hversion : (byteAt buf 0).toNat / 64 ≠ 2
  · rw [if_pos hversion, if_pos hversion]
    exact returns_pure _ _ _
  rw [if_neg hversion, if_neg hversion]
  refine .reading_bind (Nat.zero_le _) (by omega) ?_
  refine .reading_bind (Nat.zero_le _) (by omega) ?_
  by_cases hsize : buf.length < ((read16At buf 2).toNat + 1) * 4
  · rw [if_pos hsize, if_pos hsize]
    exact returns_pure _ _ _
  rw [if_neg hsize, if_neg hsize]
  by_cases hpadding : byteAt buf 0 &&& 0x20 ≠ 0
  · rw [if_pos hpadding, if_pos hpadding]
    by_cases hempty : ((read16At buf 2).toNat + 1) * 4 ≤ 4
    · rw [if_pos hempty, if_pos hempty]
      exact returns_pure _ _ _
    rw [if_neg hempty, if_neg hempty]
    refine .reading_bind (Nat.zero_le _) (by omega) ?_
    split
    · exact returns_pure _ _ _
    · exact returns_pure _ _ _
  · rw [if_neg hpadding, if_neg hpadding]
    exact returns_pure _ _ _

/-- The end of the message lies in the buffer. -/
theorem endIndex_le {header : CommonHeader} (h : rtcpParseCommonHeader buf 0 buf.length = some header) :
    4 + header.payloadSizeBytes ≤ buf.length := by
  have hsize := (blockSize_of_parse h).2
  unfold CommonHeader.blockSize at hsize
  omega

/-! ## The whole message -/

theorem length_announcedStatuses {k : Nat} (h : announced buf ≤ before buf k) :
    (announcedStatuses buf k).length = announced buf := by
  rw [announcedStatuses, List.length_take, List.length_flatMap]
  exact Nat.min_eq_left h

/-- The status vector of a message whose chunks are those up to `k`. -/
theorem getStatusVector_eq {s : Builder} {k : Nat} {chunks : List Chunk} (hchunks : s.encoder.statusChunks = chunks)
    (hall : chunks.flatMap Chunk.symbols = ((List.range' 0 k).flatMap (chunkStatuses buf)).map decodeSymbol)
    (hlast : s.lastSeq = s.baseSeq + (announced buf : Int) - 1) :
    s.getStatusVector = (announcedStatuses buf k).map decodeSymbol := by
  have hcount : (s.lastSeq - s.baseSeq + 1).toNat = announced buf := by omega
  rw [Builder.getStatusVector, hchunks, hall, hcount, announcedStatuses, List.map_take, List.range_eq_range']

/-- What the parser does with a message that ends at `endIndex`. -/
structure MessageSpec (buf : List UInt8) (endIndex : Nat) (r : Audited (Option Builder)) : Prop where
  reads : ReadsWithin 0 buf.length r.log
  holds : AllHold r.log ↔ (announced buf ≠ 0 → NoneReserved buf endIndex ∧ NoSurplus buf endIndex)
  found : ∀ packet, r.val = some packet → packet.getStatusVector.length = announced buf ∧
    packet.receiveDeltas.length = packet.getStatusVector.countP fun s => s ≠ .notReceived

theorem MessageSpec.reading_bind {α : Type} {p n : Nat} {a : α} {f : α → Audited (Option Builder)}
    (hhi : p + n ≤ buf.length) (h : MessageSpec buf endIndex (f a)) :
    MessageSpec buf endIndex (reading p n a >>= f) where
  reads := (readsWithin_reading a (Nat.zero_le _) hhi).append h.reads
  holds := by rw [log_bind, allHold_append, ← h.holds, and_iff_right (allHold_reading p n a)]; rfl
  found := h.found

/-- Behind the chunks: the deltas are read, and then the message is to be over. -/
theorem auditStatuses_spec {k : Nat} (hspan : Spans buf endIndex 0 k) (hin : 20 + 2 * k ≤ endIndex)
    (hend : endIndex ≤ buf.length) {packet : Builder}
    (hvector : packet.getStatusVector = (announcedStatuses buf k).map decodeSymbol) :
    ReadsWithin 0 buf.length (auditStatuses buf endIndex (20 + 2 * k) (announced buf) packet).log ∧
    (AllHold (auditStatuses buf endIndex (20 + 2 * k) (announced buf) packet).log ↔ NoSurplus buf endIndex) ∧
    (∀ p, (auditStatuses buf endIndex (20 + 2 * k) (announced buf) packet).val = some p →
      p.getStatusVector = packet.getStatusVector ∧
        p.receiveDeltas.length = packet.getStatusVector.countP fun s => s ≠ .notReceived) := by
  have hlength : announced buf = packet.getStatusVector.length := by
    rw [hvector, List.length_map, length_announcedStatuses hspan.covered]
  have hbytes : deltaBytes packet.getStatusVector = deltaLength (announcedStatuses buf k) := by
    rw [hvector, deltaLength_eq]
  have hsurplus : NoSurplus buf endIndex ↔ (20 + 2 * k + deltaBytes packet.getStatusVector ≤ endIndex →
      endIndex ≤ 20 + 2 * k + deltaBytes packet.getStatusVector + 3) := by
    rw [hbytes]
    constructor
    · exact fun h => h k hspan
    · intro h k' hspan'
      rwa [← hspan.unique hspan']
  have hdeltas := @auditDeltas_spec buf endIndex packet.getStatusVector (20 + 2 * k) hin
  rw [auditStatuses, hsurplus]
  generalize auditDeltas buf endIndex (20 + 2 * k) packet.getStatusVector = r at hdeltas
  obtain ⟨val, log⟩ := r
  obtain ⟨hreads, hholds, hfound, hcomplete⟩ := hdeltas
  dsimp only at hreads hholds hfound hcomplete
  have hreads : ReadsWithin 0 buf.length log := hreads.mono (Nat.zero_le _) hend
  cases val with
  | none =>
    refine ⟨?_, ?_, fun p h => (by cases h)⟩
    · exact (readsWithin_check _ _ _).append (hreads.append (readsWithin_nil _ _))
    · have hnot : ¬ 20 + 2 * k + deltaBytes packet.getStatusVector ≤ endIndex := fun h => hcomplete h rfl
      simp [hholds, hlength, hnot]
  | some found =>
    obtain ⟨deltas, index⟩ := found
    obtain ⟨rfl, hle, hcount⟩ := hfound deltas index rfl
    refine ⟨?_, ?_, ?_⟩
    · exact (readsWithin_check _ _ _).append (hreads.append ((readsWithin_check _ _ _).append
        ((readsWithin_check _ _ _).append (readsWithin_nil _ _))))
    · simp [hholds, hlength, hle]
    · rintro p heq
      cases heq
      exact ⟨rfl, hcount⟩

theorem auditMessage_spec {fuel : Nat} (hlong : 22 ≤ buf.length) (hend : endIndex ≤ buf.length)
    (hfuel : endIndex < 22 + 2 * fuel) : MessageSpec buf endIndex (auditMessage buf endIndex fuel) := by
  have hchunks := @auditChunks_spec buf endIndex fuel 0 (by omega)
  change ChunksSpec buf endIndex 0 (auditChunks buf endIndex fuel 20 (announced buf)) at hchunks
  rw [auditMessage]
  refine .reading_bind (by omega) (.reading_bind (by omega) (.reading_bind (by omega) (.reading_bind (by omega)
    (.reading_bind (by omega) (.reading_bind (by omega) ?_)))))
  have hannounced : (read16At buf 14).toNat = announced buf := rfl
  rw [hannounced]
  by_cases h0 : announced buf = 0
  · rw [if_pos h0]
    exact ⟨readsWithin_nil _ _, by simp [h0], fun packet h => (by cases h)⟩
  rw [if_neg h0]
  obtain ⟨hreads, hholds, hfound, hcomplete⟩ := hchunks
  have hreserved : AllHold (auditChunks buf endIndex fuel 20 (announced buf)).log ↔ NoneReserved buf endIndex := by
    rw [hholds]
    exact ⟨fun h k => h k (Nat.zero_le _), fun h k _ => h k⟩
  generalize auditChunks buf endIndex fuel 20 (announced buf) = r at hreads hreserved hfound hcomplete
  obtain ⟨val, log⟩ := r
  dsimp only at hreads hreserved hfound hcomplete
  have hreads : ReadsWithin 0 buf.length log := hreads.mono (Nat.zero_le _) hend
  cases val with
  | none =>
    refine ⟨hreads.append (readsWithin_nil _ _), ?_, fun packet h => (by cases h)⟩
    have hnone : NoSurplus buf endIndex := fun k hspan => absurd rfl (hcomplete k (by rwa [Nat.zero_add]))
    simp [hreserved, h0, hnone]
  | some found =>
    obtain ⟨chunks, index⟩ := found
    obtain ⟨k, hspan, rfl, hall⟩ := hfound chunks index rfl
    rw [Nat.zero_add] at hspan
    have hk : 0 < k := by
      rw [Nat.pos_iff_ne_zero]
      rintro rfl
      exact h0 (Nat.le_zero.1 hspan.covered)
    have hstatuses := fun (s : Builder) (hs : s.getStatusVector = (announcedStatuses buf k).map decodeSymbol) =>
      auditStatuses_spec hspan (hspan.inside hk) hend hs
    obtain ⟨hr, hh, hf⟩ := hstatuses ⟨read32At buf 4, read32At buf 8, (read16At buf 12).toNat, readS24 buf 16,
      byteAt buf 19, [], (read16At buf 12).toNat + announced buf - 1, -1, ⟨chunks, [], 0, false, 20⟩⟩
      (getStatusVector_eq rfl hall rfl)
    rw [Nat.zero_add]
    refine ⟨hreads.append hr, ?_, ?_⟩
    · rw [log_bind, allHold_append, hreserved]
      refine (and_congr_right fun _ => hh).trans ?_
      rw [forall_prop_of_true h0]
    · intro packet hpacket
      obtain ⟨hvector, hcount⟩ := hf packet hpacket
      rw [hvector]
      refine ⟨?_, hcount⟩
      rw [getStatusVector_eq rfl hall rfl, List.length_map, length_announcedStatuses hspan.covered]

theorem auditMessage_fuel {fuel : Nat} (hfuel : endIndex < 22 + 2 * fuel) (more : Nat) :
    auditMessage buf endIndex (fuel + more) = auditMessage buf endIndex fuel := by
  rw [auditMessage, auditMessage]
  simp only [auditChunks_fuel (show endIndex < 20 + 2 + 2 * fuel by omega)]

/-- The result is that of the parser without its log. -/
theorem val_auditFrom (buf : List UInt8) : (auditFrom buf buf.length).val = parseFrom buf := by
  rw [auditFrom, parseFrom]
  by_cases hlong : buf.length < 22
  · rw [if_pos hlong, if_pos hlong]
    rfl
  rw [if_neg hlong, if_neg hlong, val_bind, parseCommonHeader_spec.val]
  cases hheader : rtcpParseCommonHeader buf 0 buf.length with
  | none => rfl
  | some header =>
    dsimp only
    split
    · rfl
    split
    · rfl
    have hend := endIndex_le hheader
    have hfuel : auditChunks buf (4 + header.payloadSizeBytes) buf.length 20 (read16At buf 14).toNat =
        auditChunks buf (4 + header.payloadSizeBytes) (4 + header.payloadSizeBytes) 20 (read16At buf 14).toNat := by
      obtain ⟨more, hmore⟩ := Nat.exists_eq_add_of_le hend
      rw [hmore]
      exact auditChunks_fuel (by omega) _ _
    have hval := @val_auditChunks buf (4 + header.payloadSizeBytes) (4 + header.payloadSizeBytes) 20
      (read16At buf 14).toNat
    rw [← hfuel] at hval
    rw [← hval]
    by_cases h0 : (read16At buf 14).toNat = 0
    · rw [if_pos h0, auditMessage]
      simp only [val_bind, val_reading, h0, if_true, val_pure]
    · rw [if_neg h0, auditMessage]
      simp only [val_bind, val_reading, h0, if_false]
      cases (auditChunks buf (4 + header.payloadSizeBytes) buf.length 20 (read16At buf 14).toNat).val with
      | none => rfl
      | some found =>
        obtain ⟨chunks, index⟩ := found
        dsimp only
        rw [← val_auditDeltas, auditStatuses, val_bind, val_bind]
        cases (auditDeltas buf (4 + header.payloadSizeBytes) index _).val <;> rfl

/-- The parser stays in the buffer, what it asserts is so, and its result is what the message announces. -/
structure Safe (buf : List UInt8) : Prop where
  ends : ∀ fuel, buf.length ≤ fuel → auditFrom buf fuel = auditFrom buf buf.length
  reads : ReadsWithin 0 buf.length (auditFrom buf buf.length).log
  holds : AllHold (auditFrom buf buf.length).log
  found : ∀ packet, (auditFrom buf buf.length).val = some packet → packet.getStatusVector.length = announced buf ∧
    packet.receiveDeltas.length = packet.getStatusVector.countP fun s => s ≠ .notReceived

/-- What comes before the message: it is not parsed, or all depends on the message. -/
theorem auditFrom_cases (buf : List UInt8) :
    (∃ x, (∀ fuel, auditFrom buf fuel = x) ∧ Returns 0 buf.length x none ∧ ∀ endIndex, ¬ Opened buf endIndex) ∨
      ∃ endIndex log, ReadsWithin 0 buf.length log ∧ AllHold log ∧ 22 ≤ buf.length ∧ endIndex ≤ buf.length ∧
        (∀ fuel, auditFrom buf fuel =
          ⟨(auditMessage buf endIndex fuel).val, log ++ (auditMessage buf endIndex fuel).log⟩) ∧
        ∀ e, Opened buf e ↔ e = endIndex ∧ announced buf ≠ 0 := by
  by_cases hlong : buf.length < 22
  · refine .inl ⟨pure none, fun fuel => if_pos hlong, returns_pure _ _ _, fun e h => ?_⟩
    have := h.long
    omega
  obtain ⟨hval, hreads, hholds⟩ := @parseCommonHeader_spec buf
  have hfrom : ∀ fuel, auditFrom buf fuel = (parseCommonHeader buf >>= fun header => match header with
      | none => (pure none : Audited (Option Builder))
      | some header =>
        if header.countOrFormat ≠ 15 then pure none
        else if header.packetType ≠ 205 then pure none
        else auditMessage buf (4 + header.payloadSizeBytes) fuel) := fun fuel => if_neg hlong
  generalize parseCommonHeader buf = r at hval hreads hholds hfrom
  obtain ⟨val, log⟩ := r
  dsimp only at hval hreads hholds
  -- A header that is refused.
  have hrefused : ∀ x : Audited (Option Builder), x = ⟨none, log ++ []⟩ → Returns 0 buf.length x none := by
    rintro x rfl
    exact ⟨rfl, hreads.append (readsWithin_nil _ _), allHold_append.2 ⟨hholds, allHold_nil⟩⟩
  cases hheader : rtcpParseCommonHeader buf 0 buf.length with
  | none =>
    rw [hheader] at hval
    subst hval
    refine .inl ⟨_, hfrom, hrefused _ rfl, fun e h => ?_⟩
    obtain ⟨header, heq, -⟩ := h.header
    rw [hheader] at heq
    cases heq
  | some header =>
    rw [hheader] at hval
    subst hval
    have hopened : ∀ e, Opened buf e → header.countOrFormat = 15 ∧ header.packetType = 205 ∧
        e = 4 + header.payloadSizeBytes := by
      intro e h
      obtain ⟨header', heq, h1, h2, h3⟩ := h.header
      rw [hheader, Option.some.injEq] at heq
      subst heq
      exact ⟨h1, h2, h3⟩
    have hchecks : ∀ fuel x, (if header.countOrFormat ≠ 15 then pure none
        else if header.packetType ≠ 205 then pure none
        else auditMessage buf (4 + header.payloadSizeBytes) fuel) = x → auditFrom buf fuel = ⟨x.val, log ++ x.log⟩ := by
      rintro fuel x rfl
      exact hfrom fuel
    by_cases hformat : header.countOrFormat ≠ 15
    · exact .inl ⟨_, fun fuel => hchecks fuel _ (if_pos hformat), hrefused _ rfl, fun e h => hformat (hopened e h).1⟩
    by_cases htype : header.packetType ≠ 205
    · exact .inl ⟨_, fun fuel => hchecks fuel _ ((if_neg hformat).trans (if_pos htype)), hrefused _ rfl,
        fun e h => htype (hopened e h).2.1⟩
    refine .inr ⟨4 + header.payloadSizeBytes, log, hreads, hholds, by omega, endIndex_le hheader,
      fun fuel => hchecks fuel _ ((if_neg hformat).trans (if_neg htype)), fun e => ?_⟩
    constructor
    · exact fun h => ⟨(hopened e h).2.2, h.some⟩
    · rintro ⟨rfl, h0⟩
      exact ⟨by omega, ⟨header, hheader, not_not.1 hformat, not_not.1 htype, rfl⟩, h0⟩

/-- **No assertion of the parser fails exactly when no chunk that is read has the reserved symbol and a
message that is all there has at most three bytes behind its deltas.** -/
theorem safe_iff (buf : List UInt8) : Safe buf ↔
    ∀ endIndex, Opened buf endIndex → NoneReserved buf endIndex ∧ NoSurplus buf endIndex := by
  rcases auditFrom_cases buf with ⟨x, hfrom, hreturns, hclosed⟩ | ⟨endIndex, log, hreads, hholds,
    hlong, hend, hfrom, hopened⟩
  · refine ⟨fun _ e h => absurd h (hclosed e), fun _ => ?_⟩
    obtain ⟨hval, hreads, hholds⟩ := hreturns
    refine ⟨fun fuel _ => by rw [hfrom, hfrom], by rwa [hfrom], by rwa [hfrom], fun packet h => ?_⟩
    rw [hfrom, hval] at h
    cases h
  · obtain ⟨hreads', hholds', hfound⟩ := auditMessage_spec hlong hend (show endIndex < 22 + 2 * buf.length by omega)
    have hcondition : AllHold (auditFrom buf buf.length).log ↔
        ∀ e, Opened buf e → NoneReserved buf e ∧ NoSurplus buf e := by
      rw [hfrom, allHold_append, and_iff_right hholds, hholds']
      simp only [hopened]
      exact ⟨fun h e he => he.1 ▸ h he.2, fun h h0 => h endIndex ⟨rfl, h0⟩⟩
    refine ⟨fun h => hcondition.1 h.holds, fun h => ⟨fun fuel hfuel => ?_, ?_, hcondition.2 h, ?_⟩⟩
    · obtain ⟨more, rfl⟩ := Nat.exists_eq_add_of_le hfuel
      rw [hfrom, hfrom, auditMessage_fuel (by omega)]
    · rw [hfrom]
      exact hreads.append hreads'
    · rw [hfrom]
      exact hfound

/-- One packet, in a run of the reserved symbol. -/
def reservedMessage : List UInt8 :=
  [0x8F, 0xCD, 0, 5, 0, 0, 0, 0, 0, 0, 0, 0, 0, 0, 0, 1, 0, 0, 0, 0, 0x60, 1, 0, 0]

/-- One packet and its delta, and five bytes. -/
def surplusMessage : List UInt8 :=
  [0x8F, 0xCD, 0, 6, 0, 0, 0, 0, 0, 0, 0, 0, 0, 0, 0, 1, 0, 0, 0, 0, 0x20, 1, 0, 0, 0, 0, 0, 0]

theorem safe_not : ¬ Safe reservedMessage ∧ ¬ Safe surplusMessage :=
  ⟨fun h => h.holds (by decide), fun h => h.holds (by decide)⟩

end WebRtc.Feedback
