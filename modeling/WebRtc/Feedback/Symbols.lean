import Mathlib.Algebra.Ring.Nat
import WebRtc.Feedback.Builder
import Mathlib.Algebra.BigOperators.Group.List.Basic
import Mathlib.Data.List.TakeWhile

/-!
# The encoder loses no symbol

`Encode` decides late. As long as all symbols are the same it only counts them, and once it cannot
count on it has either a run that is written as such or a vector that is not full yet (`VecShape`).
Whatever it decides, one call adds one symbol to those in the chunks and the vector together, and the
size stays that of the chunks and the deltas (`encode_spec`). A call that is refused for its size may
have written out a run or have changed the kind of the vector (`EncodeCases`).
-/

namespace WebRtc.Feedback

open Encoder

/-- What `symbol_vec_` and the cardinality can be. -/
inductive VecShape (twoBit : Bool) : List StatusSymbol → Nat → Prop where
  | empty (card : Nat) : VecShape twoBit [] card
  | run {s : StatusSymbol} {card : Nat} (pos : 1 ≤ card) (short : card < 0x1FFF)
      (fits : twoBit = false → s ≠ .receivedLargeDelta) :
      VecShape twoBit (List.replicate (min card (capacityOf twoBit)) s) card
  | mixed {vec : List StatusSymbol} {card : Nat} (short : vec.length < capacityOf twoBit) (other : card < vec.length)
      (fits : twoBit = false → ∀ s ∈ vec, s ≠ .receivedLargeDelta) : VecShape twoBit vec card

/-- The bytes of the deltas. -/
def deltaBytes (l : List StatusSymbol) : Nat := (l.map StatusSymbol.deltaSize).sum

@[simp] theorem deltaBytes_append (l m : List StatusSymbol) : deltaBytes (l ++ m) = deltaBytes l + deltaBytes m := by
  simp [deltaBytes]

theorem deltaBytes_singleton (s : StatusSymbol) : deltaBytes [s] = s.deltaSize := by
  simp [deltaBytes]

theorem deltaSize_le (s : StatusSymbol) : s.deltaSize ≤ 2 := by
  cases s <;> decide

theorem deltaBytes_le (l : List StatusSymbol) : deltaBytes l ≤ 2 * l.length := by
  induction l with
  | nil => exact Nat.le_refl _
  | cons s l ih =>
    have hs := deltaSize_le s
    have hcons : deltaBytes (s :: l) = s.deltaSize + deltaBytes l := by simp [deltaBytes]
    rw [hcons, List.length_cons]
    omega

structure Encoded (e : Encoder) : Prop where
  shape : VecShape e.vecNeedsTwoBitSymbols e.symbolVec e.firstSymbolCardinality
  writable : ∀ c ∈ e.statusChunks, c.Writable
  /-- Every chunk has at least as many symbols as a vector of two bits. -/
  long : ∀ c ∈ e.statusChunks, 7 ≤ c.numSymbols
  size : e.sizeBytes = 20 + 2 * (e.statusChunks.length + if e.symbolVec = [] then 0 else 1) + deltaBytes e.symbols

/-- What `EmitRunLengthChunk` asserts (:523), and the chunk it makes (:251). -/
def RunAsserted (e : Encoder) : Prop :=
  e.symbolVec.length ≤ e.firstSymbolCardinality ∧ e.firstSymbolCardinality ≤ 0x1FFF

/-- `f` is `e` with one more symbol. -/
structure Adds (e : Encoder) (symbol : StatusSymbol) (f : Encoder) : Prop where
  encoded : Encoded f
  symbols : f.symbols = e.symbols ++ [symbol]

/-- There is something in the vector, and room for more. -/
structure Open (e : Encoder) : Prop where
  some : e.symbolVec ≠ []
  short : e.symbolVec.length < e.capacity
  card : e.firstSymbolCardinality ≤ e.symbolVec.length
  fits : e.vecNeedsTwoBitSymbols = false → ∀ s ∈ e.symbolVec, s ≠ .receivedLargeDelta
  writable : ∀ c ∈ e.statusChunks, c.Writable
  long : ∀ c ∈ e.statusChunks, 7 ≤ c.numSymbols
  size : e.sizeBytes = 20 + 2 * (e.statusChunks.length + 1) + deltaBytes e.symbols

/-- What `Encode` does: the symbol is added, or the size would be too large. That is told at the start, or
not before a run has been written out or the vector been made one of two bits. -/
inductive EncodeCases (e : Encoder) (symbol : StatusSymbol) (r : Encoder × Bool) : Prop where
  | adds (f : Encoder) (result : r = (f, true)) (adds : Adds e symbol f)
  | full (result : r = (e, false)) (size : e.sizeBytes + symbol.deltaSize > maxSizeBytes ∨
      e.sizeBytes + symbol.deltaSize + 2 > maxSizeBytes ∧ e.symbolVec = [])
  | flushed (result : r = (e.emitRunLengthChunk, false)) (some : e.symbolVec ≠ [])
      (fits : e.sizeBytes + symbol.deltaSize ≤ maxSizeBytes) (size : e.sizeBytes + symbol.deltaSize + 2 > maxSizeBytes)
      (long : e.capacity ≤ e.firstSymbolCardinality) (other : e.symbolVec.getLastD .notReceived ≠ symbol)
  | widened (result : r = ({ e with vecNeedsTwoBitSymbols := true }, false)) (open' : Open e)
      (fits : e.sizeBytes + symbol.deltaSize ≤ maxSizeBytes) (size : e.sizeBytes + symbol.deltaSize + 2 > maxSizeBytes)
      (narrow : e.vecNeedsTwoBitSymbols = false) (long : 7 ≤ e.symbolVec.length)

theorem capacityOf_cases (b : Bool) : capacityOf b = 7 ∧ b = true ∨ capacityOf b = 14 ∧ b = false := by
  cases b
  · exact Or.inr ⟨rfl, rfl⟩
  · exact Or.inl ⟨rfl, rfl⟩

theorem seven_le_capacityOf (b : Bool) : 7 ≤ capacityOf b := by
  cases b <;> decide

variable {e : Encoder} {symbol : StatusSymbol}

/-! ## What is pending -/

theorem pending_nil (h : e.symbolVec = []) : e.pending = [] := if_pos h

theorem pending_vec (hc : e.firstSymbolCardinality ≤ e.capacity) : e.pending = e.symbolVec := by
  unfold Encoder.pending
  split
  · rename_i h
    exact h.symm
  · rw [if_neg (Nat.not_lt.2 hc)]

/-- Of a run, all of it. -/
theorem pending_run {s : StatusSymbol} {card : Nat} (hpos : 1 ≤ card) (hcard : e.firstSymbolCardinality = card)
    (hvec : e.symbolVec = List.replicate (min card e.capacity) s) : e.pending = List.replicate card s := by
  have hcap : 7 ≤ e.capacity := seven_le_capacityOf _
  by_cases hc : card ≤ e.capacity
  · rw [pending_vec (hcard ▸ hc), hvec, Nat.min_eq_left hc]
  · have hne : e.symbolVec ≠ [] := by
      rw [hvec]
      simp
      omega
    have hhead : e.symbolVec.headD .notReceived = s := by
      rw [hvec, Nat.min_eq_right (by omega)]
      obtain ⟨n, hn⟩ : ∃ n, e.capacity = n + 1 := ⟨e.capacity - 1, by omega⟩
      rw [hn, List.replicate_succ]
      rfl
    rw [Encoder.pending, if_neg hne, if_pos (by omega), hcard, hhead]

/-! ## Chunks -/

/-- What `emitVectorChunk` makes of a vector. -/
def vectorChunk (twoBit : Bool) (vec : List StatusSymbol) : Chunk :=
  if twoBit then .twoBitVector (fill 7 vec) else .oneBitVector (fill 14 vec)

theorem emitVectorChunk_eq (e : Encoder) : e.emitVectorChunk =
    { e with
      statusChunks := e.statusChunks ++ [vectorChunk e.vecNeedsTwoBitSymbols e.symbolVec]
      symbolVec := e.symbolVec.drop e.capacity
      firstSymbolCardinality := cardinality (e.symbolVec.drop e.capacity) } := rfl

theorem symbols_vectorChunk (b : Bool) (vec : List StatusSymbol) : (vectorChunk b vec).symbols =
    vec.take (capacityOf b) ++ List.replicate (capacityOf b - vec.length) .notReceived := by
  cases b
  · exact ofFn_fill 14 vec
  · exact ofFn_fill 7 vec

theorem numSymbols_vectorChunk (b : Bool) (vec : List StatusSymbol) :
    (vectorChunk b vec).numSymbols = capacityOf b := by
  cases b <;> rfl

theorem fill_ne_large {n : Nat} {vec : List StatusSymbol} (h : ∀ s ∈ vec, s ≠ .receivedLargeDelta) (i : Fin n) :
    fill n vec i ≠ .receivedLargeDelta := by
  unfold fill
  rw [List.getD_eq_getElem?_getD]
  cases hi : vec[i.val]? with
  | none => simp
  | some s => exact h s (List.mem_of_getElem? hi)

theorem writable_vectorChunk {b : Bool} {vec : List StatusSymbol}
    (h : b = false → ∀ s ∈ vec, s ≠ .receivedLargeDelta) : (vectorChunk b vec).Writable := by
  cases b with
  | false => exact fill_ne_large (h rfl)
  | true => trivial

theorem cardinality_le {vec : List StatusSymbol} (h : vec ≠ []) : cardinality vec ≤ vec.length := by
  cases vec with
  | nil => exact absurd rfl h
  | cons s rest =>
    have := (List.takeWhile_sublist (l := rest) (· == s)).length_le
    rw [cardinality, List.length_cons]
    omega

/-! ## A vector that is not full -/

theorem Open.pending (h : Open e) : e.pending = e.symbolVec := by
  have := h.short
  have := h.card
  exact pending_vec (by omega)

theorem forall_mem_snoc {P : Chunk → Prop} {l : List Chunk} {c : Chunk} (h : ∀ d ∈ l, P d) (hc : P c) :
    ∀ d ∈ l ++ [c], P d := by
  intro d hd
  rcases List.mem_append.1 hd with hd | hd
  · exact h d hd
  · rw [List.mem_singleton.1 hd]
    exact hc

theorem appendVector_adds (h : Open e) (hsym : e.vecNeedsTwoBitSymbols = false → symbol ≠ .receivedLargeDelta) :
    Adds e symbol (e.appendVector e.capacity symbol) := by
  have hlen : (e.symbolVec ++ [symbol]).length = e.symbolVec.length + 1 := by simp
  have hshort := h.short
  have hcard := h.card
  have hsize := h.size
  have hfits : e.vecNeedsTwoBitSymbols = false → ∀ s ∈ e.symbolVec ++ [symbol], s ≠ .receivedLargeDelta := by
    intro hb s hs
    rcases List.mem_append.1 hs with hs | hs
    · exact h.fits hb s hs
    · rw [List.mem_singleton.1 hs]
      exact hsym hb
  have hold : e.symbols = e.statusChunks.flatMap Chunk.symbols ++ e.symbolVec := by rw [Encoder.symbols, h.pending]
  unfold Encoder.appendVector
  dsimp only
  by_cases hfull : (e.symbolVec ++ [symbol]).length = e.capacity
  · rw [if_pos hfull, emitVectorChunk_eq]
    have hcap : e.capacity = capacityOf e.vecNeedsTwoBitSymbols := rfl
    have hdrop : (e.symbolVec ++ [symbol]).drop (capacityOf e.vecNeedsTwoBitSymbols) = [] :=
      List.drop_eq_nil_of_le (by omega)
    have hchunk : (vectorChunk e.vecNeedsTwoBitSymbols (e.symbolVec ++ [symbol])).symbols =
        e.symbolVec ++ [symbol] := by
      rw [symbols_vectorChunk, ← hcap, ← hfull, List.take_length, Nat.sub_self, List.replicate_zero, List.append_nil]
    have hsyms : ∀ (card size : Nat), Encoder.symbols
        { statusChunks := e.statusChunks ++ [vectorChunk e.vecNeedsTwoBitSymbols (e.symbolVec ++ [symbol])],
          symbolVec := [],
          firstSymbolCardinality := card, vecNeedsTwoBitSymbols := e.vecNeedsTwoBitSymbols, sizeBytes := size } =
        e.symbols ++ [symbol] := by
      intro card size
      rw [hold, Encoder.symbols, pending_nil rfl]
      simp [hchunk]
    simp only [Encoder.capacity, hdrop]
    refine ⟨⟨.empty _, forall_mem_snoc h.writable (writable_vectorChunk hfits),
      forall_mem_snoc h.long ?_, ?_⟩, hsyms _ _⟩
    · rw [numSymbols_vectorChunk]
      exact seven_le_capacityOf _
    · rw [hsyms]
      simp only [deltaBytes_append, deltaBytes_singleton, List.length_append, List.length_singleton, if_true]
      omega
  · rw [if_neg hfull]
    have hpend : Encoder.symbols
        { e with symbolVec := e.symbolVec ++ [symbol], sizeBytes := e.sizeBytes + symbol.deltaSize } =
        e.symbols ++ [symbol] := by
      rw [hold, Encoder.symbols, pending_vec (by show e.firstSymbolCardinality ≤ e.capacity; omega), List.append_assoc]
    refine ⟨⟨.mixed ?_ ?_ hfits, h.writable, h.long, ?_⟩, hpend⟩
    · show (e.symbolVec ++ [symbol]).length < e.capacity
      omega
    · show e.firstSymbolCardinality < (e.symbolVec ++ [symbol]).length
      omega
    · rw [hpend]
      simp only [deltaBytes_append, deltaBytes_singleton, List.append_eq_nil_iff, reduceCtorEq, and_false, if_false]
      omega

/-! ## The other ways a symbol is added -/

theorem startVector_adds (hnil : e.symbolVec = []) (hw : ∀ c ∈ e.statusChunks, c.Writable)
    (hl : ∀ c ∈ e.statusChunks, 7 ≤ c.numSymbols)
    (hs : e.sizeBytes = 20 + 2 * e.statusChunks.length + deltaBytes e.symbols)
    (hroom : e.sizeBytes + symbol.deltaSize + 2 ≤ maxSizeBytes) :
    ∃ f, e.startVector symbol = (f, true) ∧ Adds e symbol f := by
  have hsyms : Encoder.symbols
      { e with
        symbolVec := [symbol]
        vecNeedsTwoBitSymbols := symbol.isTwoBit
        firstSymbolCardinality := 1
        sizeBytes := e.sizeBytes + symbol.deltaSize + 2 } = e.symbols ++ [symbol] := by
    have hcap : 1 ≤ capacityOf symbol.isTwoBit := Nat.le_trans (by decide) (seven_le_capacityOf _)
    rw [Encoder.symbols, Encoder.symbols, pending_nil hnil, pending_vec hcap, List.append_nil]
  refine ⟨_, if_neg (by omega), ⟨?_, hw, hl, ?_⟩, hsyms⟩
  · have hcap := seven_le_capacityOf symbol.isTwoBit
    have hrun := @VecShape.run symbol.isTwoBit symbol 1 (Nat.le_refl _) (by decide) (by
      rintro h rfl
      exact Bool.noConfusion h)
    rw [Nat.min_eq_left (by omega)] at hrun
    exact hrun
  · rw [hsyms]
    simp only [deltaBytes_append, deltaBytes_singleton, reduceCtorEq, if_false]
    omega

/-- The run as a chunk. -/
theorem emitRunLengthChunk_symbols {s : StatusSymbol} (hpend : e.pending = List.replicate e.firstSymbolCardinality s)
    (hhead : e.symbolVec.headD .notReceived = s) : e.emitRunLengthChunk.symbols = e.symbols := by
  rw [Encoder.symbols, Encoder.symbols, hpend, pending_nil rfl, Encoder.emitRunLengthChunk, hhead]
  simp [Chunk.symbols]

theorem headD_replicate {n : Nat} (hn : 1 ≤ n) (s : StatusSymbol) : (List.replicate n s).headD .notReceived = s := by
  obtain ⟨m, rfl⟩ : ∃ m, n = m + 1 := ⟨n - 1, by omega⟩
  rw [List.replicate_succ, List.headD_cons]

theorem getLastD_replicate {n : Nat} (hn : 1 ≤ n) (s : StatusSymbol) :
    (List.replicate n s).getLastD .notReceived = s := by
  obtain ⟨m, rfl⟩ : ∃ m, n = m + 1 := ⟨n - 1, by omega⟩
  rw [List.replicate_succ', List.getLastD_concat]

theorem extendRun_adds {s : StatusSymbol} {card : Nat} (hpos : 1 ≤ card) (hshort : card < 0x1FFF)
    (hfits : e.vecNeedsTwoBitSymbols = false → s ≠ .receivedLargeDelta) (hcard : e.firstSymbolCardinality = card)
    (hvec : e.symbolVec = List.replicate (min card e.capacity) s) (h : Encoded e) : Adds e s (e.extendRun s) := by
  have hcap : 7 ≤ e.capacity := seven_le_capacityOf _
  have hold : e.symbols = e.statusChunks.flatMap Chunk.symbols ++ List.replicate card s := by
    rw [Encoder.symbols, pending_run hpos hcard hvec]
  have hne : e.symbolVec ≠ [] := by
    rw [hvec]
    simp
    omega
  have hsize := h.size
  rw [if_neg hne] at hsize
  unfold Encoder.extendRun
  dsimp only
  rw [hcard]
  by_cases hfit : card + 1 ≤ e.capacity
  · -- The vector grows.
    rw [if_pos hfit]
    have hvec' : e.symbolVec ++ [s] = List.replicate (min (card + 1) e.capacity) s := by
      rw [hvec, Nat.min_eq_left (by omega), Nat.min_eq_left hfit, List.replicate_succ']
    have hsyms : Encoder.symbols
        { e with
          symbolVec := e.symbolVec ++ [s]
          firstSymbolCardinality := card + 1
          sizeBytes := e.sizeBytes + s.deltaSize } = e.symbols ++ [s] := by
      rw [hold, Encoder.symbols, pending_run
        (e := { e with symbolVec := _, firstSymbolCardinality := card + 1, sizeBytes := _ })
        (Nat.le_add_left 1 card) rfl hvec', List.replicate_succ',
        List.append_assoc]
    refine ⟨⟨?_, h.writable, h.long, ?_⟩, hsyms⟩
    · dsimp only
      rw [hvec']
      have hshort' : card + 1 < 8191 := by
        have hcases := capacityOf_cases e.vecNeedsTwoBitSymbols
        unfold Encoder.capacity at hfit
        omega
      exact .run (by omega) hshort' hfits
    · rw [hsyms]
      simp only [deltaBytes_append, deltaBytes_singleton, List.append_eq_nil_iff, reduceCtorEq, and_false, if_false]
      omega
  · rw [if_neg hfit]
    have hvec' : e.symbolVec = List.replicate (min (card + 1) e.capacity) s := by
      rw [hvec, Nat.min_eq_right (by omega), Nat.min_eq_right (by omega)]
    by_cases hmax : card + 1 = 0x1FFF
    · -- The longest run there is.
      rw [if_pos hmax]
      have hhead : e.symbolVec.headD .notReceived = s := by
        rw [hvec]
        exact headD_replicate (by omega) s
      have hsyms : Encoder.symbols
          { ({ e with firstSymbolCardinality := card + 1 } : Encoder).emitRunLengthChunk with
            sizeBytes := e.sizeBytes + s.deltaSize } = e.symbols ++ [s] := by
        rw [hold, Encoder.symbols, pending_nil rfl, Encoder.emitRunLengthChunk]
        dsimp only
        rw [hhead]
        simp [Chunk.symbols, List.replicate_succ']
      refine ⟨⟨.empty _, forall_mem_snoc h.writable ?_, forall_mem_snoc h.long ?_, ?_⟩, hsyms⟩
      · show card + 1 ≤ 0x1FFF
        omega
      · show 7 ≤ card + 1
        omega
      · have hsize' : e.sizeBytes + s.deltaSize = 20 + 2 * (e.statusChunks.length + 1) + deltaBytes
          (e.symbols ++ [s]) := by
          rw [deltaBytes_append, deltaBytes_singleton]
          omega
        rw [← hsyms] at hsize'
        simpa [Encoder.emitRunLengthChunk] using hsize'
    · rw [if_neg hmax]
      have hsyms : Encoder.symbols
          { e with firstSymbolCardinality := card + 1, sizeBytes := e.sizeBytes + s.deltaSize } = e.symbols ++ [s] := by
        rw [hold, Encoder.symbols, pending_run (e := { e with firstSymbolCardinality := card + 1, sizeBytes := _ })
          (Nat.le_add_left 1 card) rfl hvec', List.replicate_succ', List.append_assoc]
      refine ⟨⟨?_, h.writable, h.long, ?_⟩, hsyms⟩
      · dsimp only
        rw [hvec']
        exact .run (by omega) (by omega) hfits
      · rw [hsyms]
        simp only [deltaBytes_append, deltaBytes_singleton, if_neg hne]
        omega

/-! ## Every symbol -/

theorem encodeLoop_empty (fuel : Nat) (hnil : e.symbolVec = []) :
    encodeLoop (fuel + 1) e symbol = e.startVector symbol := by
  rw [encodeLoop, if_pos hnil]

theorem Adds.of_symbols {f g : Encoder} (h : Adds f symbol g) (hf : f.symbols = e.symbols) : Adds e symbol g :=
  ⟨h.encoded, hf ▸ h.symbols⟩

theorem eq_large_of_isTwoBit (h : symbol.isTwoBit = true) : symbol = .receivedLargeDelta := eq_of_beq h

/-- A vector that takes the symbol as it is. -/
theorem encodeLoop_append (fuel : Nat) (h : Open e) (hroom : e.sizeBytes + symbol.deltaSize ≤ maxSizeBytes)
    (hother : e.RleCandidate → e.symbolVec.getLastD .notReceived ≠ symbol)
    (hbits : ¬ (symbol.isTwoBit = true ∧ e.vecNeedsTwoBitSymbols = false)) :
    ∃ f, encodeLoop (fuel + 1) e symbol = (f, true) ∧ Adds e symbol f := by
  have hshort := h.short
  have hcard := h.card
  rw [encodeLoop, if_neg h.some, if_neg (Nat.not_lt.2 hroom), if_neg fun hc => hother hc.1 hc.2,
    if_neg (fun hc => absurd hc.2 (by omega)), if_neg hbits]
  refine ⟨_, rfl, appendVector_adds h fun hflag => ?_⟩
  rintro rfl
  exact hbits ⟨rfl, hflag⟩

/-- The encoder after seven symbols of a vector of single bits have become a chunk of two bits each. -/
def splitOff (e : Encoder) (size : Nat) : Encoder where
  statusChunks := e.statusChunks ++ [vectorChunk true e.symbolVec]
  symbolVec := e.symbolVec.drop 7
  firstSymbolCardinality := cardinality (e.symbolVec.drop 7)
  vecNeedsTwoBitSymbols := true
  sizeBytes := size

theorem splitOff_symbols (h : Open e) (h7 : 7 ≤ e.symbolVec.length)
    (hlen : (e.symbolVec.drop 7).length < 7) (size : Nat) :
    (splitOff e size).symbols = e.symbols := by
  have hpend : (splitOff e size).pending = e.symbolVec.drop 7 := by
    by_cases hne : e.symbolVec.drop 7 = []
    · rw [pending_nil (e := splitOff e size) hne, hne]
    · have := cardinality_le hne
      exact pending_vec (e := splitOff e size) (show cardinality (e.symbolVec.drop 7) ≤ 7 by omega)
  have hcap : capacityOf true = 7 := rfl
  rw [Encoder.symbols, hpend, Encoder.symbols, h.pending, splitOff, List.flatMap_append, List.flatMap_singleton,
    symbols_vectorChunk, hcap, Nat.sub_eq_zero_of_le h7, List.replicate_zero, List.append_nil, List.append_assoc,
    List.take_append_drop]

/-- A vector of single bits gets the first symbol that needs two. -/
theorem needTwoBits_cases (fuel : Nat) (h : Open e) (hfits : e.sizeBytes + symbol.deltaSize ≤ maxSizeBytes)
    (hflag : e.vecNeedsTwoBitSymbols = false) (hsym : symbol = .receivedLargeDelta) :
    EncodeCases e symbol (e.needTwoBits (encodeLoop (fuel + 1)) symbol) := by
  have hcard := h.card
  have hsize := h.size
  have hshort : e.symbolVec.length < 14 := by
    have := h.short
    rw [Encoder.capacity, hflag] at this
    exact this
  unfold Encoder.needTwoBits
  dsimp only
  by_cases h7 : e.symbolVec.length ≥ 7
  · rw [if_pos h7]
    by_cases hroom : e.sizeBytes + symbol.deltaSize + 2 > maxSizeBytes
    · rw [if_pos hroom]
      exact .widened rfl h hfits hroom hflag h7
    rw [if_neg hroom]
    -- Seven symbols go into a chunk, the rest stays.
    have hemit : Encoder.emitVectorChunk { e with vecNeedsTwoBitSymbols := true } = splitOff e e.sizeBytes := rfl
    have hlen : (e.symbolVec.drop 7).length < 7 := by
      rw [List.length_drop]
      omega
    have hsyms := splitOff_symbols h h7 hlen
    have hw : ∀ c ∈ (splitOff e e.sizeBytes).statusChunks, c.Writable :=
      forall_mem_snoc h.writable (writable_vectorChunk (b := true) (fun hf => nomatch hf))
    have hl : ∀ c ∈ (splitOff e e.sizeBytes).statusChunks, 7 ≤ c.numSymbols :=
      forall_mem_snoc h.long (Nat.le_of_eq (numSymbols_vectorChunk true e.symbolVec).symm)
    have hchunks : (splitOff e e.sizeBytes).statusChunks.length = e.statusChunks.length + 1 := by
      rw [splitOff, List.length_append, List.length_singleton]
    rw [hemit]
    by_cases hne : e.symbolVec.drop 7 = []
    · rw [if_pos (show (splitOff e e.sizeBytes).symbolVec = [] from hne),
        encodeLoop_empty (e := splitOff e e.sizeBytes) _ hne]
      obtain ⟨f, hf, hadds⟩ := @startVector_adds (splitOff e e.sizeBytes) symbol hne hw hl
        (by rw [hsyms, hchunks]; exact hsize) (Nat.not_lt.1 hroom)
      exact .adds f hf (hadds.of_symbols (hsyms _))
    · rw [if_neg (show ¬ (splitOff e e.sizeBytes).symbolVec = [] from hne)]
      have hopen : Open (splitOff e (e.sizeBytes + 2)) := by
        refine ⟨hne, hlen, cardinality_le hne, (fun hf => nomatch hf), hw, hl, ?_⟩
        rw [hsyms]
        show e.sizeBytes + 2 = 20 + 2 * ((splitOff e e.sizeBytes).statusChunks.length + 1) + deltaBytes e.symbols
        omega
      have hlast : (e.symbolVec.drop 7).getLastD .notReceived ≠ symbol := by
        rw [List.getLastD_eq_getLast?, List.getLast?_eq_some_getLast hne, Option.getD_some, hsym]
        exact h.fits hflag _ (List.mem_of_mem_drop (List.getLast_mem hne))
      obtain ⟨f, hf, hadds⟩ := @encodeLoop_append _ symbol fuel hopen
        (show e.sizeBytes + 2 + symbol.deltaSize ≤ maxSizeBytes by omega) (fun _ => hlast) (fun hb => nomatch hb.2)
      exact .adds f hf (hadds.of_symbols (hsyms _))
  · rw [if_neg h7]
    have hpend : Encoder.pending { e with vecNeedsTwoBitSymbols := true } = e.symbolVec :=
      pending_vec (show e.firstSymbolCardinality ≤ 7 by omega)
    have hsyms : Encoder.symbols { e with vecNeedsTwoBitSymbols := true } = e.symbols := by
      rw [Encoder.symbols, hpend, Encoder.symbols, h.pending]
    have hopen : Open { e with vecNeedsTwoBitSymbols := true } := by
      refine ⟨h.some, Nat.not_le.1 h7, hcard, (fun hf => nomatch hf), h.writable, h.long, ?_⟩
      rw [hsyms]
      exact hsize
    exact .adds _ rfl ((appendVector_adds hopen fun hf => nomatch hf).of_symbols hsyms)

/-- A vector that is no run, or one that is still short. -/
theorem encodeLoop_open (fuel : Nat) (h : Open e) (hfits : e.sizeBytes + symbol.deltaSize ≤ maxSizeBytes)
    (hother : e.RleCandidate → e.symbolVec.getLastD .notReceived ≠ symbol) :
    EncodeCases e symbol (encodeLoop (fuel + 2) e symbol) := by
  have hshort := h.short
  have hcard := h.card
  by_cases hbits : symbol.isTwoBit = true ∧ e.vecNeedsTwoBitSymbols = false
  · rw [encodeLoop, if_neg h.some, if_neg (Nat.not_lt.2 hfits), if_neg fun hc => hother hc.1 hc.2,
      if_neg (fun hc => absurd hc.2 (by omega)), if_pos hbits]
    exact needTwoBits_cases fuel h hfits hbits.2 (eq_large_of_isTwoBit hbits.1)
  · obtain ⟨f, hf, hadds⟩ := encodeLoop_append (fuel + 1) h hfits hother hbits
    exact .adds f hf hadds

/-- **Where a run is written out the assertions hold**: it is too long for a vector, and `extendRun` has counted one
symbol more. -/
theorem Encoded.runAsserted (h : Encoded e) (hne : e.symbolVec ≠ []) (hlong : e.capacity ≤ e.firstSymbolCardinality) :
    RunAsserted e ∧ RunAsserted { e with firstSymbolCardinality := e.firstSymbolCardinality + 1 } := by
  have hshape := h.shape
  unfold RunAsserted
  unfold Encoder.capacity at hlong
  dsimp only
  generalize hvec : e.symbolVec = vec at hshape
  generalize e.firstSymbolCardinality = card at hshape hlong
  cases hshape with
  | empty => exact absurd hvec hne
  | run _ hshort _ =>
    rw [List.length_replicate]
    omega
  | mixed hshort hother _ => omega

theorem Encoded.open (h : Encoded e) (hne : e.symbolVec ≠ []) (hshort : e.symbolVec.length < e.capacity)
    (hcard : e.firstSymbolCardinality ≤ e.symbolVec.length)
    (hfits : e.vecNeedsTwoBitSymbols = false → ∀ s ∈ e.symbolVec, s ≠ .receivedLargeDelta) : Open e := by
  have hsize := h.size
  rw [if_neg hne] at hsize
  exact ⟨hne, hshort, hcard, hfits, h.writable, h.long, hsize⟩

theorem encode_cases (h : Encoded e) (symbol : StatusSymbol) : EncodeCases e symbol (e.encode symbol) := by
  have hshape := h.shape
  generalize hvec : e.symbolVec = vec at hshape
  generalize hcard : e.firstSymbolCardinality = card at hshape
  unfold Encoder.encode
  by_cases hfits : e.sizeBytes + symbol.deltaSize > maxSizeBytes
  · refine .full ?_ (.inl hfits)
    by_cases hnil : e.symbolVec = []
    · rw [encodeLoop_empty 2 hnil]
      exact if_pos (by omega)
    · rw [encodeLoop, if_neg hnil, if_pos hfits]
  have hfits := Nat.not_lt.1 hfits
  cases hshape with
  | empty =>
    rw [encodeLoop_empty 2 hvec]
    by_cases hroom : e.sizeBytes + symbol.deltaSize + 2 > maxSizeBytes
    · exact .full (if_pos hroom) (.inr ⟨hroom, hvec⟩)
    · have hsize := h.size
      rw [if_pos hvec, Nat.add_zero] at hsize
      obtain ⟨f, hf, hadds⟩ := startVector_adds hvec h.writable h.long hsize (Nat.not_lt.1 hroom)
      exact .adds f hf hadds
  | @run s _ hpos hlt hkind =>
    have hcap : 7 ≤ e.capacity := seven_le_capacityOf _
    have hmin : 1 ≤ min card e.capacity := by omega
    have hlen : e.symbolVec.length = min card e.capacity := by
      rw [hvec]
      exact List.length_replicate
    have hne : e.symbolVec ≠ [] := by
      intro h0
      rw [h0, List.length_nil] at hlen
      omega
    have hlast : e.symbolVec.getLastD .notReceived = s := by
      rw [hvec]
      exact getLastD_replicate hmin s
    have hrle : e.RleCandidate := by
      by_cases hc : card ≤ e.capacity
      · exact Or.inl (by omega)
      · exact Or.inr (by omega)
    by_cases hsame : s = symbol
    · subst hsame
      rw [encodeLoop, if_neg hne, if_neg (Nat.not_lt.2 hfits), if_pos ⟨hrle, hlast⟩]
      exact .adds _ rfl (extendRun_adds hpos hlt hkind hcard hvec h)
    · have hother : e.symbolVec.getLastD .notReceived ≠ symbol := hlast ▸ hsame
      by_cases hlong : card ≥ e.capacity
      · -- A run that is too long for a vector.
        rw [encodeLoop, if_neg hne, if_neg (Nat.not_lt.2 hfits), if_neg fun hc => hother hc.2,
          if_pos ⟨hrle, by omega⟩, encodeLoop_empty (e := e.emitRunLengthChunk) 1 rfl]
        by_cases hroom : e.sizeBytes + symbol.deltaSize + 2 > maxSizeBytes
        · exact .flushed (if_pos hroom) hne hfits hroom (hcard ▸ hlong) hother
        have hhead : e.symbolVec.headD .notReceived = s := by
          rw [hvec]
          exact headD_replicate hmin s
        have hsyms : e.emitRunLengthChunk.symbols = e.symbols := by
          refine emitRunLengthChunk_symbols ?_ hhead
          rw [hcard]
          exact pending_run hpos hcard hvec
        have hsize := h.size
        rw [if_neg hne] at hsize
        have hchunks : e.emitRunLengthChunk.statusChunks.length = e.statusChunks.length + 1 := by
          rw [Encoder.emitRunLengthChunk, List.length_append, List.length_singleton]
        obtain ⟨f, hf, hadds⟩ := @startVector_adds e.emitRunLengthChunk symbol rfl
          (forall_mem_snoc h.writable (h.runAsserted hne (hcard ▸ hlong)).1.2)
          (forall_mem_snoc h.long (show 7 ≤ e.firstSymbolCardinality by omega))
          (by rw [hsyms, hchunks]; exact hsize) (Nat.not_lt.1 hroom)
        exact .adds f hf (hadds.of_symbols hsyms)
      · refine encodeLoop_open 1 (h.open hne (by omega) (by omega) ?_) hfits fun _ => hother
        intro hb t ht
        rw [hvec] at ht
        rw [List.eq_of_mem_replicate ht]
        exact hkind hb
  | mixed hshort hother hkind =>
    have hcap := capacityOf_cases e.vecNeedsTwoBitSymbols
    have hne : e.symbolVec ≠ [] := by
      intro h0
      rw [← hvec, h0, List.length_nil] at hother
      omega
    rw [← hvec] at hshort hother hkind
    have hshort : e.symbolVec.length < e.capacity := hshort
    refine encodeLoop_open 1 (h.open hne hshort (by omega) hkind) hfits ?_
    rintro (hc | hc)
    · omega
    · omega

/-- Room for one symbol more, and for the chunk it may start. -/
def Room (e : Encoder) : Prop := e.sizeBytes + 4 ≤ maxSizeBytes

/-- **One call adds one symbol**, while there is room. -/
theorem encode_spec (h : Encoded e) (hroom : Room e) (symbol : StatusSymbol) :
    ∃ f, e.encode symbol = (f, true) ∧ Adds e symbol f := by
  have hroom : e.sizeBytes + 4 ≤ maxSizeBytes := hroom
  have hd := deltaSize_le symbol
  cases encode_cases h symbol with
  | adds f result adds => exact ⟨f, result, adds⟩
  | full _ size => omega
  | flushed _ _ _ size => omega
  | widened _ _ _ size => omega

/-- 0xFFFF symbols are far from the largest size. -/
theorem room_of_length (h : Encoded e) (hn : e.symbols.length ≤ 0xFFFF) : Room e := by
  have hchunks : ∀ l : List Chunk, (∀ c ∈ l, 7 ≤ c.numSymbols) → 7 * l.length ≤ (l.flatMap Chunk.symbols).length := by
    intro l hl
    induction l with
    | nil => exact Nat.le_refl _
    | cons c l ih =>
      have hc := hl c List.mem_cons_self
      have hrest := ih fun d hd => hl d (List.mem_cons_of_mem c hd)
      rw [List.flatMap_cons, List.length_append, length_symbols, List.length_cons]
      omega
  have hlong := hchunks e.statusChunks h.long
  have hdelta := deltaBytes_le e.symbols
  have hsize := h.size
  have hlen : e.symbols.length = (e.statusChunks.flatMap Chunk.symbols).length + e.pending.length := List.length_append
  have hmax : maxSizeBytes = 262144 := rfl
  unfold Room
  split at hsize <;> omega

end WebRtc.Feedback
