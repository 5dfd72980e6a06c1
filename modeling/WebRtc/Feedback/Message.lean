import WebRtc.Feedback.Symbols
import WebRtc.Rtcp.Events

/-!
# The message on the wire (`transport_feedback.cc`)

| here | there |
| --- | --- |
| `bytes`, `create` | `Create` (:570) up to the padding, and all of it; `makeRoom` is its loop |
| `getStatusVector` | `GetStatusVector` (:541) |
| `parseChunks`, `parseDeltas`, `parseFrom` | the two loops of `ParseFrom` (:654), and `ParseFrom` |

`Covers` is what the two sides agree on: the chunks have a symbol for every status and break off with
the last of them.
-/

namespace WebRtc.Feedback

open Bytes WebRtc.Rtcp
open WebRtc.Rtcp.Parser

/-! ## Writing -/

/-- The lower bits of a signed number. -/
def u16 (x : Int) : UInt16 := UInt16.ofNat (x % 65536).toNat
def u32 (x : Int) : UInt32 := UInt32.ofNat (x % 4294967296).toNat

def writeDelta (delta : Int) : List UInt8 :=
  if 0 ≤ delta ∧ delta ≤ 0xFF then [UInt8.ofNat delta.toNat] else be16 (u16 delta)

namespace Builder
variable (s : Builder)

def bytes : List UInt8 :=
  createHeader 15 205 ((s.encoder.sizeBytes + 3) / 4 - 1) ++ be32 s.packetSenderSsrc ++ be32 s.mediaSourceSsrc ++
    be16 (u16 s.baseSeq) ++ be16 (u16 (s.lastSeq - s.baseSeq + 1)) ++ be24 (u32 s.baseTime) ++ [s.feedbackSeq] ++
    s.encoder.emitRemaining.statusChunks.flatMap Chunk.writeTo ++ s.receiveDeltas.flatMap writeDelta

/-- Zeros up to the next word. -/
def padded (packet : List UInt8) : List UInt8 := packet ++ List.replicate ((4 - packet.length % 4) % 4) 0

def create (maxLength : Nat) (b : Buffers) : Option Buffers :=
  if s.baseSeq = -1 then none
  else (b.makeRoom s.encoder.sizeBytes maxLength).map fun b => { b with packet := padded (b.packet ++ s.bytes) }

/-- Symbols beyond the last number are cropped. -/
def getStatusVector : List StatusSymbol :=
  (s.encoder.statusChunks.flatMap Chunk.symbols).take (s.lastSeq - s.baseSeq + 1).toNat

end Builder

/-! ## Reading -/

/-- `ByteReader<int16_t>`. -/
def readS16 (buf : List UInt8) (p : Nat) : Int :=
  if (read16At buf p).toNat < 32768 then (read16At buf p).toNat else (read16At buf p).toNat - 65536

/-- `ByteReader<int32_t, 3>`. -/
def readS24 (buf : List UInt8) (p : Nat) : Int :=
  if (read24At buf p).toNat < 8388608 then (read24At buf p).toNat else (read24At buf p).toNat - 16777216

/-- Chunks until `left` statuses are read; every chunk takes two bytes. -/
def parseChunks (buf : List UInt8) (endIndex : Nat) : Nat → Nat → Nat → Option (List Chunk × Nat)
  | 0, index, left => if left = 0 then some ([], index) else none
  | fuel + 1, index, left =>
    if left = 0 then some ([], index)
    else if index + 2 > endIndex then none
    else
      match parseChunk (byteAt buf index) (byteAt buf (index + 1)) left with
      | none => none
      | some chunk =>
        (parseChunks buf endIndex fuel (index + 2) (left - chunk.numSymbols)).map fun r => (chunk :: r.1, r.2)

def parseDeltas (buf : List UInt8) (endIndex : Nat) : Nat → List StatusSymbol → Option (List Int)
  | _, [] => some []
  | index, .receivedSmallDelta :: rest =>
    if index + 1 > endIndex then none
    else (parseDeltas buf endIndex (index + 1) rest).map ((byteAt buf index).toNat :: ·)
  | index, .receivedLargeDelta :: rest =>
    if index + 2 > endIndex then none
    else (parseDeltas buf endIndex (index + 2) rest).map (readS16 buf index :: ·)
  | index, .notReceived :: rest => parseDeltas buf endIndex index rest

/-- What the constructor does not set is not read back. -/
def parseFrom (buf : List UInt8) : Option Builder :=
  if buf.length < 22 then none
  else
    match rtcpParseCommonHeader buf 0 buf.length with
    | none => none
    | some header =>
      if header.countOrFormat ≠ 15 then none
      else if header.packetType ≠ 205 then none
      else
        let numPackets := (read16At buf 14).toNat
        let endIndex := 4 + header.payloadSizeBytes
        -- Empty feedback messages not allowed.
        if numPackets = 0 then none
        else
          match parseChunks buf endIndex endIndex 20 numPackets with
          | none => none
          | some (chunks, index) =>
            let packet : Builder :=
              { packetSenderSsrc := read32At buf 4
                mediaSourceSsrc := read32At buf 8
                baseSeq := (read16At buf 12).toNat
                baseTime := readS24 buf 16
                feedbackSeq := byteAt buf 19
                receiveDeltas := []
                lastSeq := (read16At buf 12).toNat + numPackets - 1
                lastTimestamp := -1
                encoder := ⟨chunks, [], 0, false, 20⟩ }
            (parseDeltas buf endIndex index packet.getStatusVector).map fun deltas =>
              { packet with receiveDeltas := deltas }

/-! ## The statuses -/

/-- The chunks have `left` statuses, and none of them only others. -/
def Covers : Nat → List Chunk → Prop
  | left, [] => left = 0
  | left, c :: rest => 0 < left ∧ c.Writable ∧ (∀ s size, c = .runLength s size → size ≤ left) ∧
      Covers (left - c.numSymbols) rest

theorem length_writeTo (c : Chunk) : c.writeTo.length = 2 := by
  cases c <;> rfl

theorem length_flatMap_writeTo (cs : List Chunk) : (cs.flatMap Chunk.writeTo).length = 2 * cs.length := by
  induction cs with
  | nil => rfl
  | cons c cs ih =>
    rw [List.flatMap_cons, List.length_append, length_writeTo, ih, List.length_cons]
    omega

theorem parseChunks_write {buf : List UInt8} {endIndex : Nat} (cs : List Chunk) {left fuel index : Nat}
    (hc : Covers left cs) (hat : At buf index (cs.flatMap Chunk.writeTo)) (hend : index + 2 * cs.length ≤ endIndex)
    (hfuel : cs.length ≤ fuel) : parseChunks buf endIndex fuel index left = some (cs, index + 2 * cs.length) := by
  induction cs generalizing left fuel index with
  | nil =>
    have h0 : left = 0 := hc
    cases fuel <;> rw [parseChunks, if_pos h0] <;> rfl
  | cons c cs ih =>
    obtain ⟨hpos, hw, hrun, hrest⟩ := hc
    rw [List.length_cons] at hend hfuel ⊢
    obtain ⟨fuel, rfl⟩ : ∃ n, fuel = n + 1 := ⟨fuel - 1, by omega⟩
    rw [List.flatMap_cons] at hat
    obtain ⟨hc0, hcs⟩ := at_append.1 hat
    rw [length_writeTo] at hcs
    obtain ⟨a, b, hab, hparse⟩ := parseChunk_writeTo hw hrun
    rw [hab] at hc0
    obtain ⟨ha, hb⟩ := at_cons.1 hc0
    rw [parseChunks, if_neg (by omega), if_neg (by omega), ha.byte, hb.byte, hparse]
    dsimp only
    rw [ih hrest hcs (by omega) (by omega), Option.map_some]
    congr 2
    omega

/-! ## The deltas -/

def InRange (delta : Int) : Prop := -32768 ≤ delta ∧ delta ≤ 32767

theorem length_writeDelta (delta : Int) : (writeDelta delta).length = (Builder.symbolOf delta).deltaSize := by
  unfold writeDelta Builder.symbolOf
  split <;> rfl

theorem toNat_u16 (x : Int) : ((u16 x).toNat : Int) = x % 65536 := by
  rw [u16, UInt16.toNat_ofNat', Nat.mod_eq_of_lt (by omega)]
  omega

theorem readS16_write {buf : List UInt8} {p : Nat} {delta : Int} (hd : InRange delta)
    (hat : At buf p (be16 (u16 delta))) :
    readS16 buf p = delta := by
  have hu := toNat_u16 delta
  obtain ⟨h1, h2⟩ := hd
  unfold readS16
  rw [hat.read16]
  split <;> omega

theorem readS24_write {buf : List UInt8} {p : Nat} {time : Int} (h1 : -8388608 ≤ time) (h2 : time < 8388608)
    (hat : At buf p (be24 (u32 time))) : readS24 buf p = time := by
  have hu : ((u32 time).toNat : Int) = time % 4294967296 := by
    rw [u32, UInt32.toNat_ofNat', Nat.mod_eq_of_lt (by omega)]
    omega
  unfold readS24
  rw [hat.read24]
  split <;> omega

theorem parseDeltas_write {buf : List UInt8} {endIndex : Nat} (symbols : List StatusSymbol)
    {deltas : List Int} {index : Nat}
    (hkind : symbols.filter (· ≠ .notReceived) = deltas.map Builder.symbolOf) (hrange : ∀ d ∈ deltas, InRange d)
    (hat : At buf index (deltas.flatMap writeDelta)) (hend : index + (deltas.flatMap writeDelta).length ≤ endIndex) :
    parseDeltas buf endIndex index symbols = some deltas := by
  induction symbols generalizing deltas index with
  | nil =>
    have hnil : deltas = [] := List.map_eq_nil_iff.1 hkind.symm
    rw [hnil, parseDeltas]
  | cons s symbols ih =>
    by_cases hs : s = .notReceived
    · subst hs
      rw [List.filter_cons_of_neg (by simp)] at hkind
      rw [parseDeltas]
      exact ih hkind hrange hat hend
    · rw [List.filter_cons_of_pos (by simpa using hs)] at hkind
      obtain ⟨d, rest, rfl, hd, hrest⟩ := List.map_eq_cons_iff.1 hkind.symm
      rw [List.flatMap_cons] at hat hend
      rw [List.length_append] at hend
      obtain ⟨hat0, hat1⟩ := at_append.1 hat
      have hnext := ih hrest.symm (fun e he => hrange e (List.mem_cons_of_mem d he)) hat1
      have hdr := hrange d List.mem_cons_self
      unfold Builder.symbolOf at hd
      unfold writeDelta at hat0 hend hnext
      split at hd
      · rename_i hsmall
        subst hd
        rw [if_pos hsmall] at hat0 hend hnext
        rw [List.length_singleton] at hend hnext
        rw [parseDeltas, if_neg (by omega), hnext (by omega), Option.map_some, hat0.byte]
        have hval : ((UInt8.ofNat d.toNat).toNat : Int) = d := by
          rw [UInt8.toNat_ofNat', Nat.mod_eq_of_lt (by omega)]
          omega
        rw [hval]
      · rename_i hlarge
        subst hd
        rw [if_neg hlarge] at hat0 hend hnext
        rw [be16_length] at hend hnext
        rw [parseDeltas, if_neg (by omega), hnext (by omega), Option.map_some, readS16_write hdr hat0]

/-! ## What is left in the vector -/

/-- Every symbol is in a chunk, and the last chunk may have more than that. -/
structure Emitted (e : Encoder) (cs : List Chunk) : Prop where
  covers : Covers e.symbols.length cs
  symbols : ∃ n, cs.flatMap Chunk.symbols = e.symbols ++ List.replicate n .notReceived
  size : e.sizeBytes = 20 + 2 * cs.length + deltaBytes e.symbols

/-- Chunks that are not the last have only real symbols. -/
theorem covers_append {cs tail : List Chunk} (hw : ∀ c ∈ cs, c.Writable) (hl : ∀ c ∈ cs, 7 ≤ c.numSymbols) {left : Nat}
    (ht : Covers left tail) : Covers ((cs.flatMap Chunk.symbols).length + left) (cs ++ tail) := by
  induction cs with
  | nil => simpa using ht
  | cons c cs ih =>
    have hlong := hl c List.mem_cons_self
    have hlen : ((c :: cs).flatMap Chunk.symbols).length = c.numSymbols + (cs.flatMap Chunk.symbols).length := by
      rw [List.flatMap_cons, List.length_append, length_symbols]
    rw [hlen]
    refine ⟨by omega, hw c List.mem_cons_self, ?_, ?_⟩
    · rintro s size rfl
      show size ≤ size + _ + _
      omega
    · have hrest : c.numSymbols + (cs.flatMap Chunk.symbols).length + left - c.numSymbols =
          (cs.flatMap Chunk.symbols).length + left := by omega
      rw [hrest]
      exact ih (fun d hd => hw d (List.mem_cons_of_mem c hd)) (fun d hd => hl d (List.mem_cons_of_mem c hd))

variable {e : Encoder}

/-- One more chunk for what is pending. -/
theorem emitted_snoc (h : Encoded e) (hne : e.symbolVec ≠ []) {c : Chunk} (hc : c.Writable) {n : Nat}
    (hsyms : c.symbols = e.pending ++ List.replicate n .notReceived)
    (hrun : ∀ s size, c = .runLength s size → size ≤ e.pending.length) (hpos : 0 < e.pending.length) :
    Emitted e (e.statusChunks ++ [c]) := by
  have hlen : c.numSymbols = e.pending.length + n := by
    rw [← length_symbols, hsyms, List.length_append, List.length_replicate]
  have htail : Covers e.pending.length [c] := ⟨hpos, hc, hrun, show e.pending.length - c.numSymbols = 0 by omega⟩
  refine ⟨?_, ⟨n, ?_⟩, ?_⟩
  · have hall := covers_append h.writable h.long htail
    rw [← List.length_append] at hall
    exact hall
  · rw [List.flatMap_append, List.flatMap_singleton, hsyms, Encoder.symbols, List.append_assoc]
  · have hsize := h.size
    rw [if_neg hne] at hsize
    rw [List.length_append, List.length_singleton]
    exact hsize

theorem emitRemaining_spec (h : Encoded e) : Emitted e e.emitRemaining.statusChunks := by
  have hshape := h.shape
  unfold Encoder.emitRemaining
  by_cases hnil : e.symbolVec = []
  · rw [if_pos hnil]
    have hsyms : e.symbols = e.statusChunks.flatMap Chunk.symbols := by
      rw [Encoder.symbols, pending_nil hnil, List.append_nil]
    have hsize := h.size
    rw [if_pos hnil] at hsize
    refine ⟨?_, ⟨0, ?_⟩, hsize⟩
    · have hall := @covers_append _ [] h.writable h.long 0 rfl
      rw [List.append_nil, Nat.add_zero, ← hsyms] at hall
      exact hall
    · rw [hsyms, List.replicate_zero, List.append_nil]
  · rw [if_neg hnil]
    generalize hvec : e.symbolVec = vec at hshape
    generalize hcard : e.firstSymbolCardinality = card at hshape
    by_cases hlong : card > e.capacity
    · -- A run.
      rw [if_pos hlong]
      cases hshape with
      | empty => exact absurd hvec hnil
      | mixed hshort hother =>
        have hshort : vec.length < e.capacity := hshort
        omega
      | @run s _ hpos hlt hfits =>
        have hpend := pending_run hpos hcard hvec
        have hhead : e.symbolVec.headD .notReceived = s := by
          rw [hvec]
          have hcap := seven_le_capacityOf e.vecNeedsTwoBitSymbols
          exact headD_replicate (by omega) s
        have hplen : e.pending.length = card := by rw [hpend, List.length_replicate]
        rw [Encoder.emitRunLengthChunk, hhead, hcard]
        refine emitted_snoc h hnil (show card ≤ 0x1FFF by omega) (n := 0) ?_ ?_ (by omega)
        · rw [hpend, List.replicate_zero, List.append_nil]
          rfl
        · rintro t size hrl
          cases hrl
          omega
    · -- A vector, which may have room for more.
      rw [if_neg hlong, emitVectorChunk_eq]
      have hpend : e.pending = e.symbolVec := pending_vec (by omega)
      have hpos : 0 < e.pending.length := by
        rw [hpend]
        exact List.length_pos_of_ne_nil hnil
      have hfit : e.symbolVec.length ≤ e.capacity ∧
          (e.vecNeedsTwoBitSymbols = false → ∀ s ∈ e.symbolVec, s ≠ .receivedLargeDelta) := by
        cases hshape with
        | empty => exact absurd hvec hnil
        | mixed hshort hother hfits =>
          rw [hvec]
          exact ⟨Nat.le_of_lt hshort, hfits⟩
        | @run s _ hpos hlt hfits =>
          rw [hvec, List.length_replicate]
          refine ⟨Nat.min_le_right _ _, fun hb t ht => ?_⟩
          rw [List.eq_of_mem_replicate ht]
          exact hfits hb
      have hsyms : (vectorChunk e.vecNeedsTwoBitSymbols e.symbolVec).symbols = e.symbolVec.take e.capacity ++
          List.replicate (e.capacity - e.symbolVec.length) .notReceived := symbols_vectorChunk _ _
      rw [List.take_of_length_le hfit.1] at hsyms
      refine emitted_snoc h hnil (writable_vectorChunk hfit.2) (hsyms.trans (by rw [hpend])) ?_ hpos
      intro s size hrl
      unfold vectorChunk at hrl
      split at hrl <;> cases hrl

/-! ## The whole message -/

/-- A message that fits its fields. -/
structure Sendable (s : Builder) : Prop where
  encoded : Encoded s.encoder
  base : 0 ≤ s.baseSeq ∧ s.baseSeq ≤ 65535
  time : -8388608 ≤ s.baseTime ∧ s.baseTime < 8388608
  count : (s.encoder.symbols.length : Int) = s.lastSeq - s.baseSeq + 1
  limit : 1 ≤ s.encoder.symbols.length ∧ s.encoder.symbols.length ≤ 0xFFFF
  kinds : s.encoder.symbols.filter (· ≠ .notReceived) = s.receiveDeltas.map Builder.symbolOf
  range : ∀ d ∈ s.receiveDeltas, InRange d

variable {s : Builder}

theorem deltaBytes_filter (l : List StatusSymbol) : deltaBytes (l.filter (· ≠ .notReceived)) = deltaBytes l := by
  induction l with
  | nil => rfl
  | cons s l ih =>
    by_cases hs : s = .notReceived
    · subst hs
      rw [List.filter_cons_of_neg (by simp), ih]
      simp [deltaBytes, StatusSymbol.deltaSize]
    · rw [List.filter_cons_of_pos (by simpa using hs)]
      unfold deltaBytes at ih ⊢
      rw [List.map_cons, List.map_cons, List.sum_cons, List.sum_cons, ih]

theorem length_flatMap_writeDelta (deltas : List Int) :
    (deltas.flatMap writeDelta).length = deltaBytes (deltas.map Builder.symbolOf) := by
  induction deltas with
  | nil => rfl
  | cons d deltas ih =>
    rw [List.flatMap_cons, List.length_append, ih, length_writeDelta]
    simp [deltaBytes]

/-- The bytes before the padding are counted right. -/
theorem length_bytes (h : Sendable s) : s.bytes.length = s.encoder.sizeBytes := by
  have hsize := (emitRemaining_spec h.encoded).size
  rw [← deltaBytes_filter, h.kinds, ← length_flatMap_writeDelta] at hsize
  rw [hsize, Builder.bytes]
  simp only [List.length_append, createHeader_length, be32_length, be16_length, be24_length, List.length_singleton,
    length_flatMap_writeTo]

theorem length_padded (packet : List UInt8) : (Builder.padded packet).length = (packet.length + 3) / 4 * 4 := by
  rw [Builder.padded, List.length_append, List.length_replicate]
  omega

/-- What is read back of a message. -/
def received (s : Builder) : Builder :=
  { s with
    lastTimestamp := -1
    encoder := ⟨s.encoder.emitRemaining.statusChunks, [], 0, false, 20⟩ }

theorem getStatusVector_received (h : Sendable s) : (received s).getStatusVector = s.encoder.symbols := by
  obtain ⟨n, hn⟩ := (emitRemaining_spec h.encoded).symbols
  have hcount : (s.lastSeq - s.baseSeq + 1).toNat = s.encoder.symbols.length := by
    have := h.count
    omega
  show (s.encoder.emitRemaining.statusChunks.flatMap Chunk.symbols).take (s.lastSeq - s.baseSeq + 1).toNat = _
  rw [hn, hcount, List.take_left]

theorem parseFrom_padded (h : Sendable s) : parseFrom (Builder.padded s.bytes) = some (received s) := by
  have hlen := length_bytes h
  have hem := emitRemaining_spec h.encoded
  have hsize := hem.size
  have hroom : s.encoder.sizeBytes + 4 ≤ maxSizeBytes := room_of_length h.encoded h.limit.2
  have hmax : maxSizeBytes = 262144 := rfl
  have hpad := length_padded s.bytes
  rw [hlen] at hpad
  have hdelta : (s.receiveDeltas.flatMap writeDelta).length = deltaBytes s.encoder.symbols := by
    rw [length_flatMap_writeDelta, ← h.kinds, deltaBytes_filter]
  -- There is a chunk.
  have hchunks : 1 ≤ s.encoder.emitRemaining.statusChunks.length := by
    cases hcs : s.encoder.emitRemaining.statusChunks with
    | nil =>
      have hcov := hem.covers
      rw [hcs] at hcov
      have h0 : s.encoder.symbols.length = 0 := hcov
      have := h.limit.1
      omega
    | cons c cs => simp
  generalize hbuf : Builder.padded s.bytes = buf at hpad
  have hat : At buf 0 s.bytes := by
    rw [← hbuf]
    exact at_zero _ _
  unfold Builder.bytes at hat
  obtain ⟨hat, hdeltas⟩ := at_append.1 hat
  obtain ⟨hat, hcs⟩ := at_append.1 hat
  obtain ⟨hat, hfb⟩ := at_append.1 hat
  obtain ⟨hat, htime⟩ := at_append.1 hat
  obtain ⟨hat, hcount⟩ := at_append.1 hat
  obtain ⟨hat, hbase⟩ := at_append.1 hat
  obtain ⟨hat, hmedia⟩ := at_append.1 hat
  obtain ⟨hhead, hsender⟩ := at_append.1 hat
  have hheader := headerAt_create (p := 0) (by decide) (by omega) hhead (by omega)
  have hsender : read32At buf 4 = s.packetSenderSsrc := hsender.read32
  have hmedia : read32At buf 8 = s.mediaSourceSsrc := hmedia.read32
  have hbase : ((read16At buf 12).toNat : Int) = s.baseSeq := by
    have h16 : read16At buf 12 = u16 s.baseSeq := hbase.read16
    have := h.base
    rw [h16, toNat_u16]
    omega
  have hcount : (read16At buf 14).toNat = s.encoder.symbols.length := by
    have h16 : read16At buf 14 = u16 (s.lastSeq - s.baseSeq + 1) := hcount.read16
    have hu := toNat_u16 (s.lastSeq - s.baseSeq + 1)
    have h1 := h.count
    have h2 := h.limit
    rw [h16]
    omega
  have htime : readS24 buf 16 = s.baseTime := readS24_write h.time.1 h.time.2 htime
  have hfb : byteAt buf 19 = s.feedbackSeq := hfb.byte
  have hcs : At buf 20 (s.encoder.emitRemaining.statusChunks.flatMap Chunk.writeTo) := hcs
  have hindex : 20 + (s.encoder.emitRemaining.statusChunks.flatMap Chunk.writeTo).length =
      20 + 2 * s.encoder.emitRemaining.statusChunks.length := by rw [length_flatMap_writeTo]
  have hdeltas : At buf (20 + 2 * s.encoder.emitRemaining.statusChunks.length)
      (s.receiveDeltas.flatMap writeDelta) := by
    rw [← hindex]
    convert hdeltas using 1
    simp only [List.length_append, createHeader_length, be32_length, be16_length, be24_length, List.length_singleton]
    omega
  have hend : 4 + ((s.encoder.sizeBytes + 3) / 4 - 1) * 4 = (s.encoder.sizeBytes + 3) / 4 * 4 := by omega
  have hheader : rtcpParseCommonHeader buf 0 buf.length =
      some ⟨15, 205, ((s.encoder.sizeBytes + 3) / 4 - 1) * 4, 0⟩ := hheader
  have hparse := @parseChunks_write _ (4 + ((s.encoder.sizeBytes + 3) / 4 - 1) * 4) _ _
    (4 + ((s.encoder.sizeBytes + 3) / 4 - 1) * 4) _ hem.covers hcs (by omega) (by omega)
  have hread := @parseDeltas_write _
    (4 + ((s.encoder.sizeBytes + 3) / 4 - 1) * 4) _ _ _ h.kinds h.range hdeltas (by omega)
  rw [← getStatusVector_received h] at hread
  have hlast : s.baseSeq + (s.encoder.symbols.length : Int) - 1 = s.lastSeq := by
    have := h.count
    omega
  unfold parseFrom
  rw [if_neg (by omega), hheader]
  dsimp only
  rw [if_neg (by decide), if_neg (by decide), hcount, if_neg (Nat.ne_of_gt h.limit.1), hparse]
  dsimp only
  rw [hsender, hmedia, hbase, htime, hfb, hlast]
  exact congrArg (Option.map _) hread

end WebRtc.Feedback
