import WebRtc.Feedback.Decoded
import WebRtc.Feedback.Message

/-!
# What a refused packet leaves behind

`WithReceivedPacket` tests the number and the time before it does anything. Behind these tests a packet is
refused for the count or for the size, and by then `AddSymbol` may have counted missing packets and `Encode`
may have written out a run or changed the kind of the vector. `Harmless` says when the message is still the
same: the packet is refused at one of the first two tests, or at its very first symbol, and at that symbol
nothing was written that `Create` would not write.
-/

namespace WebRtc.Feedback

open CInt Bytes Builder WebRtc.Rtcp

/-- `Create` makes the same of both. -/
def SameMessage (s t : Builder) : Prop := ∀ maxLength b, t.create maxLength b = s.create maxLength b

/-! ## What the message shows -/

section Shown
variable {s t : Builder}

theorem create_empty (h : 0 ≤ s.baseSeq) {maxLength : Nat} (hmax : s.encoder.sizeBytes ≤ maxLength) :
    s.create maxLength ⟨[], []⟩ = some ⟨padded s.bytes, []⟩ := by
  have hne : ¬ s.baseSeq = -1 := by omega
  rw [create, if_neg hne, Buffers.makeRoom, List.length_nil, Nat.zero_add, if_pos hmax]
  rfl

theorem SameMessage.padded_eq (h : SameMessage s t) (hs : 0 ≤ s.baseSeq) (ht : t.baseSeq = s.baseSeq) :
    padded t.bytes = padded s.bytes := by
  have heq := h (s.encoder.sizeBytes + t.encoder.sizeBytes) ⟨[], []⟩
  rw [create_empty hs (Nat.le_add_right _ _), create_empty (ht ▸ hs) (Nat.le_add_left _ _)] at heq
  exact congrArg Buffers.packet (Option.some.inj heq)

/-- Where the count and the chunks stand. -/
theorem at_padded (s : Builder) : At (padded s.bytes) 14 (be16 (u16 (s.lastSeq - s.baseSeq + 1))) ∧
    At (padded s.bytes) 20 (s.encoder.emitRemaining.statusChunks.flatMap Chunk.writeTo) := by
  have hat : At (padded s.bytes) 0 s.bytes := at_zero _ _
  unfold Builder.bytes at hat
  obtain ⟨hat, -⟩ := at_append.1 hat
  obtain ⟨hat, hchunks⟩ := at_append.1 hat
  obtain ⟨hat, -⟩ := at_append.1 hat
  obtain ⟨hat, -⟩ := at_append.1 hat
  obtain ⟨-, hcount⟩ := at_append.1 hat
  exact ⟨hcount, hchunks⟩

theorem u16_add_ne (x : Int) {k : Int} (hpos : 0 < k) (hk : k < 65536) : u16 (x + k) ≠ u16 x := by
  intro h
  have h1 := toNat_u16 x
  have h2 := toNat_u16 (x + k)
  rw [h] at h2
  omega

/-- A message that covers more numbers. -/
theorem not_same_of_count (hs : 0 ≤ s.baseSeq) (ht : t.baseSeq = s.baseSeq) (hlast : s.lastSeq < t.lastSeq)
    (hlimit : t.lastSeq < s.lastSeq + 65536) : ¬ SameMessage s t := by
  intro h
  have hs16 := (at_padded s).1.read16
  have ht16 := (at_padded t).1.read16
  rw [h.padded_eq hs ht, hs16, ht] at ht16
  refine u16_add_ne (s.lastSeq - s.baseSeq + 1) (k := t.lastSeq - s.lastSeq) (by omega) (by omega) ?_
  rw [ht16]
  congr 1
  omega

theorem at_unique {buf a b : List UInt8} {p : Nat} (ha : At buf p a) (hb : At buf p b) (hlen : a.length = b.length) :
    a = b :=
  (List.prefix_of_prefix_length_le ha hb (Nat.le_of_eq hlen)).eq_of_length hlen

theorem Chunk.writeTo_inj {c d : Chunk} (hc : c.Writable) (hd : d.Writable) (h : c.writeTo = d.writeTo) : c = d := by
  obtain ⟨a, b, hab, hpc⟩ := parseChunk_writeTo hc (n := c.numSymbols + d.numSymbols) (by
    rintro s size rfl
    exact Nat.le_add_right _ _)
  obtain ⟨a', b', hab', hpd⟩ := parseChunk_writeTo hd (n := c.numSymbols + d.numSymbols) (by
    rintro s size rfl
    exact Nat.le_add_left _ _)
  rw [hab, hab', List.cons.injEq, List.cons.injEq] at h
  obtain ⟨rfl, rfl, -⟩ := h
  exact Option.some.inj (hpc.symm.trans hpd)

/-- A message whose chunks differ from some place on. -/
theorem not_same_of_chunk (hs : 0 ≤ s.baseSeq) (ht : t.baseSeq = s.baseSeq) {cs : List Chunk} {c d : Chunk}
    (hsc : s.encoder.emitRemaining.statusChunks = cs ++ [c]) (htd : t.encoder.emitRemaining.statusChunks = cs ++ [d])
    (hc : c.Writable) (hd : d.Writable) (hne : c ≠ d) : ¬ SameMessage s t := by
  intro h
  have hsat := (at_padded s).2
  have htat := (at_padded t).2
  rw [hsc, List.flatMap_append, List.flatMap_singleton] at hsat
  rw [h.padded_eq hs ht, htd, List.flatMap_append, List.flatMap_singleton] at htat
  exact hne (Chunk.writeTo_inj hc hd (at_unique (at_append.1 hsat).2 (at_append.1 htat).2
    ((length_writeTo c).trans (length_writeTo d).symm)))

/-- Nothing else of the encoder is shown. -/
theorem same_of_emitted {f : Encoder} (hsize : f.sizeBytes = s.encoder.sizeBytes)
    (hchunks : f.emitRemaining.statusChunks = s.encoder.emitRemaining.statusChunks) :
    SameMessage s { s with encoder := f } := by
  intro maxLength b
  rw [create, create, Builder.bytes, Builder.bytes, hsize, hchunks]

end Shown

/-! ## A symbol that is refused -/

/-- There is no room for the symbol, and this is told before anything is written that would not be written
for the message as it is. -/
def Encoder.Full (e : Encoder) (symbol : StatusSymbol) : Prop :=
  e.sizeBytes + symbol.deltaSize > maxSizeBytes ∨
    e.sizeBytes + symbol.deltaSize + 2 > maxSizeBytes ∧
      (e.symbolVec = [] ∨ e.firstSymbolCardinality > e.capacity ∧ e.symbolVec.getLastD .notReceived ≠ symbol)

section Refused
variable {e : Encoder} {symbol : StatusSymbol}

theorem Encoder.Full.refuses (h : e.Full symbol) : (e.encode symbol).2 = false := by
  unfold Encoder.encode
  by_cases hnil : e.symbolVec = []
  · have hsize : e.sizeBytes + symbol.deltaSize + 2 > maxSizeBytes := by
      rcases h with hsize | ⟨hsize, -⟩
      · omega
      · exact hsize
    rw [encodeLoop_empty 2 hnil, Encoder.startVector, if_pos hsize]
  · rcases h with hsize | ⟨hsize, hrun⟩
    · rw [Encoder.encodeLoop, if_neg hnil, if_pos hsize]
    · obtain ⟨hlong, hother⟩ := hrun.resolve_left hnil
      by_cases hfull : e.sizeBytes + symbol.deltaSize > maxSizeBytes
      · rw [Encoder.encodeLoop, if_neg hnil, if_pos hfull]
      · rw [Encoder.encodeLoop, if_neg hnil, if_neg hfull, if_neg fun hc => hother hc.2,
          if_pos ⟨.inr hlong, Nat.le_of_lt hlong⟩, encodeLoop_empty (e := e.emitRunLengthChunk) 1 rfl]
        rw [Encoder.startVector, if_pos (show e.emitRunLengthChunk.sizeBytes + symbol.deltaSize + 2 > _ from hsize)]

theorem emitRemaining_vector (hne : e.symbolVec ≠ []) (hshort : ¬ e.firstSymbolCardinality > e.capacity) :
    e.emitRemaining.statusChunks = e.statusChunks ++ [vectorChunk e.vecNeedsTwoBitSymbols e.symbolVec] := by
  rw [Encoder.emitRemaining, if_neg hne, if_neg hshort, emitVectorChunk_eq]

theorem emitRemaining_run (hne : e.symbolVec ≠ []) (hlong : e.firstSymbolCardinality > e.capacity) :
    e.emitRemaining = e.emitRunLengthChunk := by
  rw [Encoder.emitRemaining, if_neg hne, if_pos hlong]

theorem writable_vector (h : Encoded e) (hne : e.symbolVec ≠ []) :
    (vectorChunk e.vecNeedsTwoBitSymbols e.symbolVec).Writable := by
  refine writable_vectorChunk ?_
  have hshape := h.shape
  generalize hvec : e.symbolVec = vec at hshape
  generalize e.firstSymbolCardinality = card at hshape
  cases hshape with
  | empty => exact absurd hvec hne
  | run _ _ hkind => exact fun hb t ht => List.eq_of_mem_replicate ht ▸ hkind hb
  | mixed _ _ hkind => exact hkind

theorem writable_run (h : Encoded e) (hne : e.symbolVec ≠ []) (hlong : e.capacity ≤ e.firstSymbolCardinality) :
    (Chunk.runLength (e.symbolVec.headD .notReceived) e.firstSymbolCardinality).Writable :=
  (h.runAsserted hne hlong).1.2

/-- **Whether a refused symbol leaves the chunks alone.** -/
theorem encode_refused {s : Builder} (h : Encoded s.encoder) (hbase : 0 ≤ s.baseSeq)
    (hrefused : (s.encode symbol).2 = false) :
    SameMessage s (s.encode symbol).1 ↔ 0xFFFF < s.lastSeq - s.baseSeq + 1 ∨ s.encoder.Full symbol := by
  by_cases hlimit : s.lastSeq - s.baseSeq + 1 > 0xFFFF
  · rw [Builder.encode, if_pos hlimit]
    exact iff_of_true (fun _ _ => rfl) (.inl hlimit)
  rw [Builder.encode, if_neg hlimit] at hrefused ⊢
  dsimp only at hrefused ⊢
  cases encode_cases h symbol with
  | adds f result _ =>
    rw [result] at hrefused
    cases hrefused
  | full result size =>
    rw [result]
    refine iff_of_true (fun _ _ => rfl) (.inr ?_)
    rcases size with hsize | ⟨hsize, hnil⟩
    · exact .inl hsize
    · exact .inr ⟨hsize, .inl hnil⟩
  | flushed result some fits size long other =>
    rw [result]
    by_cases hlong : s.encoder.firstSymbolCardinality > s.encoder.capacity
    · refine iff_of_true (same_of_emitted rfl ?_) (.inr (.inr ⟨size, .inr ⟨hlong, other⟩⟩))
      have hflush : s.encoder.emitRunLengthChunk.emitRemaining = s.encoder.emitRunLengthChunk := if_pos rfl
      rw [hflush, emitRemaining_run some hlong]
    · refine iff_of_false ?_ ?_
      · -- A run of just the length of a vector, which `Create` writes as a vector.
        refine not_same_of_chunk hbase rfl (emitRemaining_vector some hlong)
          (d := .runLength (s.encoder.symbolVec.headD .notReceived) s.encoder.firstSymbolCardinality) rfl
          (writable_vector h some) (writable_run h some long) ?_
        unfold vectorChunk
        split <;> exact Chunk.noConfusion
      · rintro (hcount | hfull | ⟨-, hnil | ⟨hover, -⟩⟩)
        · exact hlimit hcount
        · omega
        · exact some hnil
        · exact hlong hover
  | widened result open' fits size narrow long =>
    have hcap : s.encoder.capacity = 14 := by rw [Encoder.capacity, narrow]; rfl
    have hshort := open'.short
    have hcard := open'.card
    have hlong : ¬ s.encoder.firstSymbolCardinality > s.encoder.capacity := by omega
    rw [result]
    refine iff_of_false ?_ ?_
    · have hchunks := emitRemaining_vector open'.some hlong
      have hw := writable_vector h open'.some
      rw [narrow] at hchunks hw
      -- What is in the vector now is a run, or a vector of two bits.
      by_cases hrun : s.encoder.firstSymbolCardinality > 7
      · have hnew := emitRemaining_run (e := { s.encoder with vecNeedsTwoBitSymbols := true }) open'.some hrun
        exact not_same_of_chunk hbase rfl hchunks (congrArg Encoder.statusChunks hnew) hw
          (show s.encoder.firstSymbolCardinality ≤ 0x1FFF by omega) Chunk.noConfusion
      · have hnew := emitRemaining_vector (e := { s.encoder with vecNeedsTwoBitSymbols := true }) open'.some hrun
        exact not_same_of_chunk hbase rfl hchunks hnew hw trivial Chunk.noConfusion
    · rintro (hcount | hfull | ⟨-, hnil | ⟨hover, -⟩⟩)
      · exact hlimit hcount
      · omega
      · exact open'.some hnil
      · exact hlong hover

end Refused

/-! ## A packet that is refused -/

/-- What every call that is accepted keeps. -/
structure Standing (s : Builder) : Prop where
  encoded : Encoded s.encoder
  base : 0 ≤ s.baseSeq
  order : s.baseSeq ≤ s.lastSeq
  limit : s.lastSeq ≤ s.baseSeq + 65535

theorem standing_withBase (sender media : UInt32) (feedbackSeq : UInt8) (base : UInt16) (ref : Int) :
    Standing (withBase sender media feedbackSeq base ref) := by
  have h := books_withBase sender media feedbackSeq base ref
  exact ⟨h.encoded, h.nonneg, h.order, Int.le_add_of_nonneg_right (by decide)⟩

/-- `f` and `last` are what is new. -/
def Builder.moved (s : Builder) (f : Encoder) (last : Int) : Builder := { s with encoder := f, lastSeq := last }

/-- `Encode` moves to another encoder. It is asked for a symbol only while there is room for its status. -/
theorem encode_result {s : Builder} (h : Encoded s.encoder) (symbol : StatusSymbol) :
    ∃ f, (s.encode symbol).1 = s.moved f s.lastSeq ∧
      ((s.encode symbol).2 = true → Encoded f ∧ s.lastSeq - s.baseSeq + 1 ≤ 0xFFFF) := by
  by_cases hlimit : s.lastSeq - s.baseSeq + 1 > 0xFFFF
  · rw [Builder.encode, if_pos hlimit]
    exact ⟨s.encoder, rfl, fun ht => absurd ht Bool.false_ne_true⟩
  rw [Builder.encode, if_neg hlimit]
  refine ⟨_, rfl, fun ht => ⟨?_, Int.not_lt.1 hlimit⟩⟩
  have ht : (s.encoder.encode symbol).2 = true := ht
  cases encode_cases h symbol with
  | adds f result adds => exact result ▸ adds.encoded
  | full result => exact absurd (ht.symm.trans (congrArg Prod.snd result)) Bool.noConfusion
  | flushed result => exact absurd (ht.symm.trans (congrArg Prod.snd result)) Bool.noConfusion
  | widened result => exact absurd (ht.symm.trans (congrArg Prod.snd result)) Bool.noConfusion

/-- Some of the missing packets are counted: all of them if nothing is refused, none only if the first is. -/
theorem addMissing_moves (n : Nat) {s : Builder} (h : Encoded s.encoder) (hlimit : s.lastSeq ≤ s.baseSeq + 65535) :
    ∃ f, ∃ k : Nat, (addMissing n s).1 = s.moved f (s.lastSeq + k) ∧ s.lastSeq + k ≤ s.baseSeq + 65535 ∧
      ((addMissing n s).2 = true → Encoded f ∧ k = n) ∧ ((s.encode .notReceived).2 = true → 0 < n → 0 < k) := by
  induction n generalizing s with
  | zero =>
    exact ⟨s.encoder, 0, by simp [addMissing, moved], by omega, fun _ => ⟨h, rfl⟩, fun _ h0 => absurd h0 (by omega)⟩
  | succ n ih =>
    obtain ⟨f, hf, hok⟩ := encode_result h .notReceived
    rw [addMissing]
    dsimp only
    by_cases ht : (s.encode .notReceived).2 = true
    · obtain ⟨henc, hroom⟩ := hok ht
      have hlimit' : (s.moved f (s.lastSeq + 1)).lastSeq ≤ (s.moved f (s.lastSeq + 1)).baseSeq + 65535 := by
        dsimp only [moved]
        omega
      obtain ⟨g, k, hg, hk, hall, -⟩ := @ih (s.moved f (s.lastSeq + 1)) henc hlimit'
      have hk : s.lastSeq + 1 + (k : Int) ≤ s.baseSeq + 65535 := hk
      rw [if_pos ht, hf]
      refine ⟨g, k + 1, hg.trans ?_, by omega, fun hb => ⟨(hall hb).1, by rw [(hall hb).2]⟩, fun _ _ => by omega⟩
      show s.moved g (s.lastSeq + 1 + (k : Int)) = s.moved g (s.lastSeq + (k + 1 : Nat))
      congr 1
      omega
    · rw [if_neg ht]
      exact ⟨f, 0, by rw [hf, Int.natCast_zero, Int.add_zero], by omega, fun hb => absurd hb ht, fun hb => absurd hb ht⟩

variable {s : Builder} {symbol : StatusSymbol} {seq : Int}

theorem addSymbol_accepted (h : Standing s) (hnew : seq = s.baseSeq ∨ s.lastSeq < seq)
    (ht : (s.addSymbol symbol seq).2 = true) : ∃ f, (s.addSymbol symbol seq).1 = s.moved f seq ∧
    Standing (s.moved f seq) := by
  have horder := h.order
  obtain ⟨f, k, hf, -, hall, -⟩ := addMissing_moves (seq - 1 - s.lastSeq).toNat h.encoded h.limit
  unfold addSymbol at ht ⊢
  dsimp only at ht ⊢
  by_cases hm : (addMissing (seq - 1 - s.lastSeq).toNat s).2 = true
  · rw [if_pos hm, hf] at ht ⊢
    obtain ⟨henc, rfl⟩ := hall hm
    obtain ⟨g, hg, hok⟩ := encode_result (s := s.moved f _) henc symbol
    by_cases hlast : (Builder.encode (s.moved f (s.lastSeq + (seq - 1 - s.lastSeq).toNat)) symbol).2 = true
    · obtain ⟨henc, hroom⟩ := hok hlast
      have hroom : s.lastSeq + ((seq - 1 - s.lastSeq).toNat : Int) - s.baseSeq + 1 ≤ 0xFFFF := hroom
      rw [if_pos hlast, hg]
      exact ⟨g, rfl, henc, h.base, show s.baseSeq ≤ seq by omega, show seq ≤ s.baseSeq + 65535 by omega⟩
    · rw [if_neg hlast] at ht
      exact absurd ht hlast
  · rw [if_neg hm] at ht
    exact absurd ht hm

/-- **Whether a refused number leaves the message as it was**: it does if its first symbol is refused
cleanly. -/
theorem addSymbol_refused (h : Standing s) (hrefused : (s.addSymbol symbol seq).2 = false) :
    SameMessage s (s.addSymbol symbol seq).1 ↔ 0xFFFF < s.lastSeq - s.baseSeq + 1 ∨
      s.encoder.Full (if s.lastSeq < seq - 1 then .notReceived else symbol) := by
  have horder := h.order
  by_cases hmissing : s.lastSeq < seq - 1
  · rw [if_pos hmissing]
    obtain ⟨n, hn⟩ : ∃ n, (seq - 1 - s.lastSeq).toNat = n + 1 := ⟨(seq - 1 - s.lastSeq).toNat - 1, by omega⟩
    by_cases ht : (s.encode .notReceived).2 = true
    · -- A packet has been counted.
      obtain ⟨f, k, hf, hk, hall, hpos⟩ := addMissing_moves (n + 1) h.encoded h.limit
      have hpos := hpos ht (Nat.succ_pos n)
      have hmoved : ∃ g, (s.addSymbol symbol seq).1 = s.moved g (s.lastSeq + k) := by
        rw [addSymbol, hn] at hrefused ⊢
        dsimp only at hrefused ⊢
        by_cases hm : (addMissing (n + 1) s).2 = true
        · rw [if_pos hm, hf] at hrefused ⊢
          obtain ⟨g, hg, -⟩ := encode_result (s := s.moved f (s.lastSeq + k)) (hall hm).1 symbol
          by_cases hlast : ((s.moved f (s.lastSeq + k)).encode symbol).2 = true
          · rw [if_pos hlast] at hrefused
            cases hrefused
          · rw [if_neg hlast, hg]
            exact ⟨g, rfl⟩
        · rw [if_neg hm]
          exact ⟨f, hf⟩
      obtain ⟨g, hg⟩ := hmoved
      rw [hg]
      refine iff_of_false (not_same_of_count h.base rfl ?_ ?_) ?_
      · show s.lastSeq < s.lastSeq + k
        omega
      · show s.lastSeq + k < s.lastSeq + 65536
        omega
      · obtain ⟨_, -, hok⟩ := encode_result h.encoded .notReceived
        obtain ⟨-, hroom⟩ := hok ht
        rintro (hcount | hfull)
        · omega
        · have hf := hfull.refuses
          rw [Builder.encode, if_neg (by omega)] at ht
          exact absurd (ht.symm.trans hf) Bool.noConfusion
    · have hsame : s.addSymbol symbol seq = s.encode .notReceived := by
        rw [addSymbol, hn, addMissing]
        dsimp only
        rw [if_neg ht, if_neg ht]
      rw [hsame]
      exact encode_refused h.encoded h.base (Bool.eq_false_iff.2 ht)
  · rw [if_neg hmissing]
    have hn : (seq - 1 - s.lastSeq).toNat = 0 := by omega
    rw [addSymbol, hn, addMissing] at hrefused ⊢
    dsimp only at hrefused ⊢
    rw [if_pos rfl] at hrefused ⊢
    by_cases ht : (s.encode symbol).2 = true
    · rw [if_pos ht] at hrefused
      cases hrefused
    · rw [if_neg ht]
      exact encode_refused h.encoded h.base (Bool.eq_false_iff.2 ht)

/-- The first symbol that is added for a packet. -/
def firstSymbol (s : Builder) (packet : UInt16 × Int) : StatusSymbol :=
  if s.lastSeq < s.unwrap packet.1 - 1 then .notReceived else symbolOf (s.ticks packet.2)

/-- If the packet is refused, then by one of the first two tests, or cleanly at its first symbol. -/
def Harmless (s : Builder) (packet : UInt16 × Int) : Prop :=
  (s.unwrap packet.1 ≠ s.baseSeq ∧ s.unwrap packet.1 ≤ s.lastSeq) ∨ ¬ s.TimeFits packet.2 ∨
    0xFFFF < s.lastSeq - s.baseSeq + 1 ∨ s.encoder.Full (firstSymbol s packet)

/-- The first two tests, and behind them `AddSymbol`. -/
inductive Tested (s : Builder) (packet : UInt16 × Int) : Prop where
  | refused (why : (s.unwrap packet.1 ≠ s.baseSeq ∧ s.unwrap packet.1 ≤ s.lastSeq) ∨ ¬ s.TimeFits packet.2)
      (result : s.withReceivedPacket packet = (s, false))
  | passed (new : s.unwrap packet.1 = s.baseSeq ∨ s.lastSeq < s.unwrap packet.1) (time : s.TimeFits packet.2)
      (result : s.withReceivedPacket packet =
        let r := s.addSymbol (symbolOf (s.ticks packet.2)) (s.unwrap packet.1)
        if r.2 then
          ({ r.1 with
            receiveDeltas := r.1.receiveDeltas ++ [s.ticks packet.2]
            lastTimestamp := r.1.lastTimestamp + s.ticks packet.2 * 250 }, true)
        else r)

theorem tested (s : Builder) (packet : UInt16 × Int) : Tested s packet := by
  by_cases hlate : s.unwrap packet.1 ≠ s.baseSeq ∧ s.unwrap packet.1 ≤ s.lastSeq
  · refine .refused (.inl hlate) ?_
    unfold withReceivedPacket
    dsimp only
    rw [if_pos hlate]
  · by_cases htime : s.TimeFits packet.2
    · have hdelta : i16 (s.ticks packet.2) = s.ticks packet.2 := htime
      refine .passed (by omega) htime ?_
      unfold withReceivedPacket
      dsimp only
      rw [if_neg hlate, if_neg (fun hne => hne hdelta), hdelta]
    · refine .refused (.inr htime) ?_
      unfold withReceivedPacket
      dsimp only
      rw [if_neg hlate, if_pos (show i16 (s.ticks packet.2) ≠ s.ticks packet.2 from htime)]

theorem withReceivedPacket_refused (h : Standing s) {packet : UInt16 × Int}
    (hrefused : (s.withReceivedPacket packet).2 = false) :
    SameMessage s (s.withReceivedPacket packet).1 ↔ Harmless s packet := by
  cases tested s packet with
  | refused why result =>
    rw [result]
    refine iff_of_true (fun _ _ => rfl) ?_
    rcases why with hlate | htime
    · exact .inl hlate
    · exact .inr (.inl htime)
  | passed new time result =>
    rw [result] at hrefused ⊢
    dsimp only at hrefused ⊢
    by_cases ht : (s.addSymbol (symbolOf (s.ticks packet.2)) (s.unwrap packet.1)).2 = true
    · rw [if_pos ht] at hrefused
      cases hrefused
    · rw [if_neg ht, addSymbol_refused h (Bool.eq_false_iff.2 ht)]
      constructor
      · exact fun hc => .inr (.inr hc)
      · rintro (hlate | htime | hc)
        · omega
        · exact absurd time htime
        · exact hc

theorem standing_step (h : Standing s) {packet : UInt16 × Int} (haccepted : (s.withReceivedPacket packet).2 = true) :
    Standing (s.withReceivedPacket packet).1 := by
  cases tested s packet with
  | refused _ result =>
    rw [result] at haccepted
    cases haccepted
  | passed new _ result =>
    rw [result] at haccepted ⊢
    dsimp only at haccepted ⊢
    by_cases ht : (s.addSymbol (symbolOf (s.ticks packet.2)) (s.unwrap packet.1)).2 = true
    · obtain ⟨f, hf, hs⟩ := addSymbol_accepted h new ht
      rw [if_pos ht, hf]
      exact ⟨hs.encoded, hs.base, hs.order, hs.limit⟩
    · rw [if_neg ht] at haccepted
      exact absurd haccepted ht

/-- Every call of the run returns true. -/
abbrev Accepted : Builder → List (UInt16 × Int) → Prop :=
  Machine.Meets withReceivedPacket fun s packet => (s.withReceivedPacket packet).2 = true

theorem standing_run (h : Standing s) {packets : List (UInt16 × Int)} (ha : Accepted s packets) :
    Standing (Machine.run withReceivedPacket s packets) :=
  Machine.run_of_meets (P := Standing) (fun _ _ hs haccepted => standing_step hs haccepted) h ha

/-- **When a packet that is refused leaves the message as it was**, after any packets that were accepted. -/
theorem refused_same_iff (sender media : UInt32) (feedbackSeq : UInt8) (base : UInt16) (ref : Int)
    (packets : List (UInt16 × Int)) (ha : Accepted (withBase sender media feedbackSeq base ref) packets)
    (packet : UInt16 × Int)
    (hrefused : ((Machine.run withReceivedPacket
    (withBase sender media feedbackSeq base ref) packets).withReceivedPacket
      packet).2 = false) :
    SameMessage (Machine.run withReceivedPacket (withBase sender media feedbackSeq base ref) packets)
        ((Machine.run withReceivedPacket
          (withBase sender media feedbackSeq base ref) packets).withReceivedPacket packet).1 ↔
      Harmless (Machine.run withReceivedPacket (withBase sender media feedbackSeq base ref) packets) packet :=
  withReceivedPacket_refused (standing_run (standing_withBase sender media feedbackSeq base ref) ha) hrefused

theorem refused_same_iff_late : SameMessage (Machine.run withReceivedPacket (withBase 1 2 0 10 0) [(10, 0), (12, 500)])
    ((Machine.run withReceivedPacket (withBase 1 2 0 10 0) [(10, 0), (12, 500)]).withReceivedPacket (11, 750)).1 :=
  (refused_same_iff 1 2 0 10 0 [(10, 0), (12, 500)] ⟨by decide, by decide, trivial⟩ (11, 750) (by decide)).2
    (.inl (by decide))

theorem Room.not_full {e : Encoder} (h : Room e) (symbol : StatusSymbol) : ¬ e.Full symbol := by
  have hd := deltaSize_le symbol
  have hroom : e.sizeBytes + 4 ≤ maxSizeBytes := h
  rintro (hfull | ⟨hfull, -⟩) <;> omega

theorem accept_lastSeq (s : Builder) (f : Encoder) (packet : UInt16 × Int) :
    (s.accept f packet).lastSeq = s.unwrap packet.1 := rfl

/-- A number that is new, less than 0xFFFF from the base, and whose time fits. -/
theorem accept_of_ready {s : Builder} (h : s.Ready) (packet : UInt16 × Int) (htime : s.TimeFits packet.2)
    (hnew : s.lastSeq < s.unwrap packet.1) (hlimit : s.unwrap packet.1 - s.baseSeq < 0xFFFF) :
    ∃ f, s.withReceivedPacket packet = (s.accept f packet, true) ∧ (s.accept f packet).Ready := by
  have horder := h.order
  have hcount := h.count
  cases withReceivedPacket_cases h packet (fun _ hbase => by omega) (fun _ => hlimit) with
  | refused _ why =>
    rcases why with hlate | hno
    · omega
    · exact absurd htime hno
  | accepted f result _ _ encoded symbols =>
    refine ⟨f, result, encoded, show s.baseSeq ≤ s.unwrap packet.1 by omega, ?_⟩
    show (f.symbols.length : Int) ≤ s.unwrap packet.1 - s.baseSeq + 1
    rw [symbols, List.length_append, List.length_append, List.length_replicate, List.length_singleton]
    omega

/-- The numbers 0x8000 and 0x9000 are accepted; 0 is then 65536, which is too far, but the numbers up to 65535
have been counted. -/
theorem refused_not_same : ¬ ∀ (sender media : UInt32) (feedbackSeq : UInt8) (base : UInt16) (ref : Int)
    (packets : List (UInt16 × Int)) (packet : UInt16 × Int),
    Accepted (withBase sender media feedbackSeq base ref) packets →
    ((Machine.run withReceivedPacket (withBase sender media feedbackSeq base ref) packets).withReceivedPacket
      packet).2 = false →
    SameMessage (Machine.run withReceivedPacket (withBase sender media feedbackSeq base ref) packets)
      ((Machine.run withReceivedPacket (withBase sender media feedbackSeq base ref) packets).withReceivedPacket
        packet).1 := by
  intro h
  obtain ⟨f, hf, hready⟩ := accept_of_ready (books_withBase 1 2 0 0 0).ready (0x8000, 1000) rfl
    (by decide) (by decide)
  generalize hs : Builder.accept (withBase 1 2 0 0 0) f (0x8000, 1000) = s at hf hready
  have hlast : s.lastSeq = 0x8000 := hs ▸ rfl
  have hbase : s.baseSeq = 0 := hs ▸ rfl
  have htime : s.lastTimestamp = 1000 := hs ▸ rfl
  have hunwrap : s.unwrap 0x9000 = 0x9000 := by
    rw [unwrap, hlast]
    rfl
  have hticks : s.ticks 2000 = 4 := by
    rw [ticks, htime]
    rfl
  obtain ⟨g, hg, hready'⟩ := accept_of_ready hready (0x9000, 2000) (by rw [TimeFits, hticks]; rfl)
    (by rw [hunwrap, hlast]; decide) (by rw [hunwrap, hbase]; decide)
  generalize ht : s.accept g (0x9000, 2000) = t at hg hready'
  have hlast' : t.lastSeq = 0x9000 := by
    rw [← ht, accept_lastSeq]
    exact hunwrap
  have hbase' : t.baseSeq = 0 := ht ▸ hbase
  have htime' : t.lastTimestamp = 2000 := by
    rw [← ht]
    show s.lastTimestamp + s.ticks 2000 * 250 = 2000
    rw [htime, hticks]
    rfl
  have hunwrap' : t.unwrap 0 = 65536 := by
    rw [unwrap, hlast']
    rfl
  have hticks' : t.ticks 3000 = 4 := by
    rw [ticks, htime']
    rfl
  have hrun : Machine.run withReceivedPacket (withBase 1 2 0 0 0) [(0x8000, 1000), (0x9000, 2000)] = t := by
    rw [Machine.run_cons, hf, Machine.run_cons, hg]
    rfl
  have haccepted : Accepted (withBase 1 2 0 0 0) [(0x8000, 1000), (0x9000, 2000)] := by
    refine ⟨congrArg Prod.snd hf, ?_, trivial⟩
    rw [hf]
    exact congrArg Prod.snd hg
  have hrefused : (t.withReceivedPacket (0, 3000)).2 = false := by
    cases tested t (0, 3000) with
    | refused _ result => rw [result]
    | passed _ _ result =>
      rw [result, hunwrap']
      dsimp only
      have hcases := addSymbol_cases hready' (by rw [hlast', hbase']; decide) (symbolOf (t.ticks 3000))
        (show t.lastSeq ≤ 65536 by rw [hlast']; decide)
      cases hcases with
      | added _ _ _ _ limit =>
        rw [hbase'] at limit
        exact absurd limit (by decide)
      | full k f result _ _ _ => rw [result, if_neg Bool.noConfusion]
  have hsame := h 1 2 0 0 0 [(0x8000, 1000), (0x9000, 2000)] (0, 3000) haccepted
  rw [hrun] at hsame
  have hstanding := standing_run (standing_withBase 1 2 0 0 0) haccepted
  rw [hrun] at hstanding
  rcases (withReceivedPacket_refused hstanding hrefused).1 (hsame hrefused) with hlate | htime | hcount | hfull
  · rw [hunwrap', hlast'] at hlate
    exact absurd hlate.2 (by decide)
  · refine htime ?_
    show i16 (t.ticks 3000) = t.ticks 3000
    rw [hticks']
    rfl
  · rw [hlast', hbase'] at hcount
    exact absurd hcount (by decide)
  · refine (room_of_length hready'.encoded ?_).not_full _ hfull
    have hcount := hready'.count
    rw [hlast', hbase'] at hcount
    omega

end WebRtc.Feedback
