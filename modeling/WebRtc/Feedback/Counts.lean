import WebRtc.Feedback.Symbols

/-!
# One status for each sequence number

`last_seq_` is set to the base before the base has a status, and the count is tested before it grows.
So the books only balance if the base is the first number to be reported and is not reported again,
and if no number is reported that needs more than 0xFFFF statuses (`Regular`). A call whose time does
not fit a delta changes nothing and may have any number.
-/

namespace WebRtc.Feedback

open CInt Builder

/-! ## Adding symbols -/

namespace Builder

/-- As many symbols as numbers from the base to the last, or none yet; room for all of them. -/
structure Ready (s : Builder) : Prop where
  encoded : Encoded s.encoder
  order : s.baseSeq ≤ s.lastSeq
  count : (s.encoder.symbols.length : Int) ≤ s.lastSeq - s.baseSeq + 1

theorem encode_adds {s : Builder} (h : s.Ready) (hlimit : s.lastSeq - s.baseSeq + 1 ≤ 0xFFFF) (symbol : StatusSymbol) :
    ∃ f, s.encode symbol = ({ s with encoder := f }, true) ∧ Adds s.encoder symbol f := by
  have hcount := h.count
  obtain ⟨f, hf, hadds⟩ := encode_spec h.encoded (room_of_length h.encoded (by omega)) symbol
  refine ⟨f, ?_, hadds⟩
  rw [Builder.encode, if_neg (by omega), hf]

theorem addMissing_adds (n : Nat) {s : Builder} (h : s.Ready) (hlimit : s.lastSeq + n - s.baseSeq ≤ 0xFFFF) :
    ∃ f, addMissing n s = ({ s with encoder := f, lastSeq := s.lastSeq + n }, true) ∧ Encoded f ∧
      f.symbols = s.encoder.symbols ++ List.replicate n .notReceived := by
  induction n generalizing s with
  | zero =>
    refine ⟨s.encoder, ?_, h.encoded, ?_⟩
    · simp [addMissing]
    · simp
  | succ n ih =>
    have hcount := h.count
    obtain ⟨f, hf, hadds⟩ := encode_adds h (by omega) .notReceived
    have hready : Ready { s with encoder := f, lastSeq := s.lastSeq + 1 } := by
      have hlen : f.symbols.length = s.encoder.symbols.length + 1 :=
        by rw [hadds.symbols, List.length_append, List.length_singleton]
      have horder := h.order
      refine ⟨hadds.encoded, ?_, ?_⟩ <;> dsimp only <;> omega
    obtain ⟨g, hg, henc, hsyms⟩ := ih hready (by dsimp only; omega)
    refine ⟨g, ?_, henc, ?_⟩
    · have hlast : s.lastSeq + 1 + (n : Int) = s.lastSeq + ((n + 1 : Nat) : Int) := by omega
      rw [addMissing, hf]
      dsimp only at hg ⊢
      rw [if_pos rfl, hg, hlast]
    · rw [hsyms, hadds.symbols, List.append_assoc, List.singleton_append, ← List.replicate_succ]

theorem addSymbol_adds {s : Builder} (h : s.Ready) (symbol : StatusSymbol) {seq : Int} (hseq : s.lastSeq ≤ seq)
    (hlimit : seq - s.baseSeq < 0xFFFF) :
    ∃ f, s.addSymbol symbol seq = ({ s with encoder := f, lastSeq := seq }, true) ∧ Encoded f ∧
      f.symbols = s.encoder.symbols ++ List.replicate (seq - 1 - s.lastSeq).toNat .notReceived ++ [symbol] := by
  obtain ⟨f, hf, henc, hsyms⟩ := addMissing_adds (seq - 1 - s.lastSeq).toNat h (by omega)
  have hready : Ready { s with encoder := f, lastSeq := s.lastSeq + ((seq - 1 - s.lastSeq).toNat : Int) } := by
    have hlen : f.symbols.length = s.encoder.symbols.length + (seq - 1 - s.lastSeq).toNat := by
      rw [hsyms, List.length_append, List.length_replicate]
    have hcount := h.count
    have horder := h.order
    refine ⟨henc, ?_, ?_⟩ <;> dsimp only <;> omega
  obtain ⟨g, hg, hadds⟩ := encode_adds hready (by dsimp only; omega) symbol
  refine ⟨g, ?_, hadds.encoded, ?_⟩
  · rw [addSymbol, hf]
    dsimp only at hg ⊢
    rw [if_pos rfl, hg]
    rfl
  · rw [hadds.symbols, hsyms]

/-! ## Calls -/

/-- The time since the last packet fits a delta. -/
def TimeFits (s : Builder) (timestamp : Int) : Prop := i16 (s.ticks timestamp) = s.ticks timestamp

/-- What the call does to the state, if it is accepted. -/
def accept (s : Builder) (f : Encoder) (packet : UInt16 × Int) : Builder :=
  { s with
    encoder := f
    lastSeq := s.unwrap packet.1
    receiveDeltas := s.receiveDeltas ++ [s.ticks packet.2]
    lastTimestamp := s.lastTimestamp + s.ticks packet.2 * 250 }

/-- A call is refused and changes nothing, or it adds a status for every number up to its own. -/
inductive CallCases (s : Builder) (packet : UInt16 × Int) (r : Builder × Bool) : Prop where
  | refused (same : r = (s, false))
      (why : (s.unwrap packet.1 ≠ s.baseSeq ∧ s.unwrap packet.1 ≤ s.lastSeq) ∨ ¬ s.TimeFits packet.2)
  | accepted (f : Encoder) (result : r = (s.accept f packet, true)) (time : s.TimeFits packet.2)
      (new : s.unwrap packet.1 = s.baseSeq ∨ s.lastSeq < s.unwrap packet.1) (encoded : Encoded f)
      (symbols : f.symbols = s.encoder.symbols ++
        List.replicate (s.unwrap packet.1 - 1 - s.lastSeq).toNat .notReceived ++ [symbolOf (s.ticks packet.2)])

theorem withReceivedPacket_cases {s : Builder} (h : s.Ready) (packet : UInt16 × Int)
    (hnext : s.TimeFits packet.2 → s.unwrap packet.1 = s.baseSeq → s.lastSeq = s.baseSeq)
    (hlimit : s.TimeFits packet.2 → s.unwrap packet.1 - s.baseSeq < 0xFFFF) :
    CallCases s packet (s.withReceivedPacket packet) := by
  have horder := h.order
  unfold withReceivedPacket
  dsimp only
  by_cases hlate : s.unwrap packet.1 ≠ s.baseSeq ∧ s.unwrap packet.1 ≤ s.lastSeq
  · rw [if_pos hlate]
    exact .refused rfl (Or.inl hlate)
  · rw [if_neg hlate]
    by_cases htime : s.TimeFits packet.2
    · have hnew : s.unwrap packet.1 = s.baseSeq ∨ s.lastSeq < s.unwrap packet.1 := by omega
      have hseq : s.lastSeq ≤ s.unwrap packet.1 := by
        rcases hnew with hbase | hlt
        · rw [hnext htime hbase, hbase]
        · exact Int.le_of_lt hlt
      have hdelta : i16 (s.ticks packet.2) = s.ticks packet.2 := htime
      obtain ⟨f, hf, henc, hsyms⟩ := addSymbol_adds h (symbolOf (s.ticks packet.2)) hseq (hlimit htime)
      rw [if_neg (fun hne => hne hdelta), hdelta, hf, if_pos rfl]
      exact .accepted f rfl htime hnew henc hsyms
    · rw [if_pos (show i16 (s.ticks packet.2) ≠ s.ticks packet.2 from htime)]
      exact .refused rfl (Or.inr htime)

end Builder

/-! ## Whole runs -/

/-- The books of a state. -/
structure Counted (s : Builder) : Prop where
  count : s.encoder.symbols = [] ∨ (s.encoder.symbols.length : Int) = s.lastSeq - s.baseSeq + 1
  limit : s.encoder.symbols.length ≤ 0xFFFF
  received : s.encoder.symbols.countP (· ≠ .notReceived) = s.receiveDeltas.length

/-- The numbers of the calls that return true. -/
def accepted : Builder → List (UInt16 × Int) → List Int
  | _, [] => []
  | s, packet :: rest =>
    let r := s.withReceivedPacket packet
    if r.2 then s.unwrap packet.1 :: accepted r.1 rest else accepted r.1 rest

/-- The books balance all along, the last number does not go back, and only newer numbers are accepted. -/
structure Balanced (s : Builder) (packets : List (UInt16 × Int)) : Prop where
  counted : Machine.Always withReceivedPacket Counted s packets
  forward : Machine.Meets withReceivedPacket (fun s packet =>
    s.lastSeq ≤ (s.withReceivedPacket packet).1.lastSeq) s packets
  newer : (accepted s packets).Pairwise (· < ·)

/-- The base is reported first and only once, and at most 0xFFFF numbers are covered. -/
def Regular (s : Builder) (packet : UInt16 × Int) : Prop :=
  s.TimeFits packet.2 →
    (s.encoder.symbols = [] → s.unwrap packet.1 ≤ s.baseSeq) ∧
    (s.unwrap packet.1 = s.baseSeq → s.encoder.symbols = []) ∧
    s.unwrap packet.1 - s.baseSeq < 0xFFFF

/-- What regular calls keep. -/
structure Books (s : Builder) : Prop where
  encoded : Encoded s.encoder
  nonneg : 0 ≤ s.baseSeq
  order : s.baseSeq ≤ s.lastSeq
  counted : Counted s
  fresh : s.encoder.symbols = [] → s.lastSeq = s.baseSeq

theorem Books.ready {s : Builder} (h : Books s) : s.Ready := by
  have horder := h.order
  refine ⟨h.encoded, horder, ?_⟩
  rcases h.counted.count with hnil | hcount
  · rw [hnil, List.length_nil]
    omega
  · omega

theorem books_withBase (sender media : UInt32) (feedbackSeq : UInt8) (base : UInt16) (ref : Int) :
    Books (withBase sender media feedbackSeq base ref) := by
  refine ⟨⟨.empty _, ?_, ?_, rfl⟩, Int.natCast_nonneg _, Int.le_refl _, ⟨Or.inl rfl, Nat.zero_le _, rfl⟩, fun _ => rfl⟩
  · intro c hc
    cases hc
  · intro c hc
    cases hc

theorem symbolOf_ne (delta : Int) : symbolOf delta ≠ .notReceived := by
  unfold symbolOf
  split <;> exact fun h => nomatch h

/-- A regular call is refused without a trace, or accepted with a newer number. -/
inductive BooksStep (s : Builder) (packet : UInt16 × Int) (r : Builder × Bool) : Prop where
  | refused (same : r = (s, false))
  | accepted (result : r.2 = true) (books : Books r.1) (last : r.1.lastSeq = s.unwrap packet.1)
      (added : r.1.encoder.symbols ≠ [])
      (newer : s.encoder.symbols = [] ∧ s.unwrap packet.1 = s.lastSeq ∨ s.lastSeq < s.unwrap packet.1)

theorem books_step {s : Builder} (h : Books s) {packet : UInt16 × Int} (hreg : Regular s packet) :
    BooksStep s packet (s.withReceivedPacket packet) := by
  have hcases := withReceivedPacket_cases h.ready packet (fun ht hb =>
    h.fresh ((hreg ht).2.1 hb)) fun ht => (hreg ht).2.2
  cases hcases with
  | refused same why => exact .refused same
  | accepted f result time new encoded symbols =>
    obtain ⟨hfirst, hbase, hlimit⟩ := hreg time
    have horder := h.order
    rw [result]
    -- The first number is the base; after that the base would be a number too many.
    have hnewer : s.encoder.symbols = [] ∧ s.unwrap packet.1 = s.lastSeq ∨
        s.encoder.symbols ≠ [] ∧ s.lastSeq < s.unwrap packet.1 := by
      by_cases hnil : s.encoder.symbols = []
      · have hfresh := h.fresh hnil
        have hle := hfirst hnil
        exact Or.inl ⟨hnil, by omega⟩
      · exact Or.inr ⟨hnil, new.resolve_left fun hb => hnil (hbase hb)⟩
    have hlen : f.symbols.length = s.encoder.symbols.length + (s.unwrap packet.1 - 1 - s.lastSeq).toNat + 1 := by
      rw [symbols, List.length_append, List.length_append, List.length_replicate, List.length_singleton]
    have hadded : f.symbols ≠ [] := by
      intro h0
      rw [h0, List.length_nil] at hlen
      omega
    have hcount : (f.symbols.length : Int) = s.unwrap packet.1 - s.baseSeq + 1 := by
      rcases hnewer with ⟨hnil, hu⟩ | ⟨hsome, hu⟩
      · have hfresh := h.fresh hnil
        rw [hnil, List.length_nil] at hlen
        omega
      · have := h.counted.count.resolve_left hsome
        omega
    have hreceived : f.symbols.countP (· ≠ .notReceived) = (s.receiveDeltas ++ [s.ticks packet.2]).length := by
      have hold := h.counted.received
      have hmissing : (List.replicate (s.unwrap packet.1 - 1 - s.lastSeq).toNat StatusSymbol.notReceived).countP
          (· ≠ .notReceived) = 0 := by
        rw [List.countP_replicate]
        rfl
      have hone : [symbolOf (s.ticks packet.2)].countP (· ≠ .notReceived) = 1 := by
        rw [List.countP_singleton, if_pos (decide_eq_true (symbolOf_ne _))]
      rw [symbols, List.countP_append, List.countP_append, hmissing, hone, hold, List.length_append,
        List.length_singleton]
    refine .accepted rfl ⟨encoded, h.nonneg, ?_, ⟨Or.inr hcount, ?_, hreceived⟩, fun h0 => absurd h0 hadded⟩ rfl hadded
      (hnewer.imp id And.right)
    · show s.baseSeq ≤ s.unwrap packet.1
      omega
    · show f.symbols.length ≤ 0xFFFF
      omega

/-- What is accepted later is newer than what there is. -/
theorem lt_accepted {s : Builder} (h : Books s) {packets : List (UInt16 × Int)}
    (hreg : Machine.Meets withReceivedPacket Regular s packets) (hadded : s.encoder.symbols ≠ []) :
    ∀ n ∈ accepted s packets, s.lastSeq < n := by
  induction packets generalizing s with
  | nil =>
    intro n hn
    cases hn
  | cons packet rest ih =>
    intro n hn
    rw [accepted] at hn
    cases books_step h hreg.1 with
    | refused same =>
      have hrest := hreg.2
      rw [same] at hn hrest
      exact ih h hrest hadded n hn
    | accepted result books last added newer =>
      have hlt := newer.resolve_left fun hnil => hadded hnil.1
      rw [if_pos result] at hn
      rcases List.mem_cons.1 hn with rfl | hn
      · exact hlt
      · have := ih books hreg.2 added n hn
        omega

/-- **Regular calls keep the books**, from any state in which they balance. -/
theorem balanced_of_books {s : Builder} (h : Books s) {packets : List (UInt16 × Int)}
    (hreg : Machine.Meets withReceivedPacket Regular s packets) : Balanced s packets := by
  induction packets generalizing s with
  | nil => exact ⟨h.counted, trivial, List.Pairwise.nil⟩
  | cons packet rest ih =>
    obtain ⟨hhead, hrest⟩ := hreg
    cases books_step h hhead with
    | refused same =>
      have hnext : (s.withReceivedPacket packet).1 = s := by rw [same]
      have hfalse : ¬ (s.withReceivedPacket packet).2 = true := by
        rw [same]
        exact Bool.false_ne_true
      have hb := ih (hnext.symm ▸ h) hrest
      refine ⟨⟨h.counted, hb.counted⟩, ⟨Int.le_of_eq (by rw [hnext]), hb.forward⟩, ?_⟩
      rw [accepted, if_neg hfalse]
      exact hb.newer
    | accepted result books last added newer =>
      have hb := ih books hrest
      refine ⟨⟨h.counted, hb.counted⟩, ⟨?_, hb.forward⟩, ?_⟩
      · omega
      · have hlt := lt_accepted books hrest added
        rw [last] at hlt
        rw [accepted, if_pos result]
        exact List.pairwise_cons.2 ⟨hlt, hb.newer⟩

/-! ## Other calls -/

theorem toNat_lastSeq (s : Builder) : (UInt16.ofNat (s.lastSeq % 65536).toNat).toNat = (s.lastSeq % 65536).toNat := by
  rw [UInt16.toNat_ofNat', Nat.mod_eq_of_lt (by omega)]

/-- How far `seq` is ahead. -/
theorem isNewer_iff (seq prev : UInt16) : isNewerSequenceNumber seq prev = true ↔
    0 < (seq.toNat - prev.toNat : Int) % 65536 ∧
      ((seq.toNat - prev.toNat : Int) % 65536 < 0x8000 ∨
        (seq.toNat - prev.toNat : Int) % 65536 = 0x8000 ∧ prev.toNat < seq.toNat) := by
  have h1 := seq.toNat_lt
  have h2 := prev.toNat_lt
  have hsub : ((seq - prev).toNat : Int) = (seq.toNat - prev.toNat : Int) % 65536 := by
    rw [UInt16.toNat_sub]
    omega
  have hhalf : (0x8000 : UInt16).toNat = 0x8000 := rfl
  rw [← hsub]
  unfold isNewerSequenceNumber
  split
  · rename_i heq
    rw [heq, decide_eq_true_eq, hhalf, gt_iff_lt, UInt16.lt_iff_toNat_lt]
    omega
  · rename_i hne
    rw [decide_eq_true_eq, ne_eq, ← UInt16.toNat_inj, UInt16.lt_iff_toNat_lt, hhalf]
    rw [← UInt16.toNat_inj, hhalf] at hne
    omega

theorem unwrap_le {s : Builder} (h0 : 0 ≤ s.lastSeq) (seq : UInt16) : s.unwrap seq ≤ s.lastSeq + 0x8000 := by
  have h1 := seq.toNat_lt
  have hlast := toNat_lastSeq s
  unfold unwrap
  dsimp only
  by_cases hnew : isNewerSequenceNumber seq (UInt16.ofNat (s.lastSeq % 65536).toNat) = true
  · rw [if_pos hnew]
    have hd := (isNewer_iff _ _).1 hnew
    rw [hlast] at hd
    split <;> omega
  · rw [if_neg hnew]
    split <;> omega

theorem addMissing_stuck {s : Builder} (h : 0xFFFF < s.lastSeq - s.baseSeq + 1) (n : Nat) : (addMissing n s).1 = s := by
  cases n with
  | zero => rfl
  | succ n =>
    have hfail : s.encode .notReceived = (s, false) := if_pos h
    rw [addMissing, hfail]
    rfl

theorem addMissing_add (m n : Nat) (s : Builder) : addMissing (m + n) s =
    if (addMissing m s).2 then addMissing n (addMissing m s).1 else addMissing m s := by
  induction m generalizing s with
  | zero =>
    rw [Nat.zero_add]
    rfl
  | succ m ih =>
    rw [Nat.succ_add, addMissing, addMissing]
    by_cases hr : (s.encode .notReceived).2 = true
    · simp only [if_pos hr]
      exact ih _
    · simp only [if_neg hr]

/-- The base once more: a symbol too many. -/
theorem addSymbol_base {s : Builder} (h : s.Ready) (hlimit : s.lastSeq - s.baseSeq + 1 ≤ 0xFFFF)
    (symbol : StatusSymbol) :
    ∃ f, s.addSymbol symbol s.baseSeq = ({ s with encoder := f, lastSeq := s.baseSeq }, true) ∧
      f.symbols = s.encoder.symbols ++ [symbol] := by
  have horder := h.order
  have hnone : (s.baseSeq - 1 - s.lastSeq).toNat = 0 := by omega
  obtain ⟨f, hf, hadds⟩ := encode_adds h hlimit symbol
  refine ⟨f, ?_, hadds.symbols⟩
  rw [addSymbol, hnone, addMissing]
  dsimp only
  rw [if_pos rfl, hf]
  rfl

/-- A number too far from the base: one status more than the limit. -/
theorem addSymbol_far {s : Builder} (h : s.Ready)
    (hcount : (s.encoder.symbols.length : Int) = s.lastSeq - s.baseSeq + 1)
    (hlimit : s.lastSeq - s.baseSeq + 1 ≤ 0xFFFF) (symbol : StatusSymbol) {seq : Int}
    (hfar : 0xFFFF ≤ seq - s.baseSeq) :
    (s.addSymbol symbol seq).1.encoder.symbols.length = 0x10000 := by
  have horder := h.order
  by_cases hexact : seq - s.baseSeq = 0xFFFF
  · obtain ⟨f, hf, henc, hsyms⟩ := addMissing_adds (seq - 1 - s.lastSeq).toNat h (by omega)
    have hlen : f.symbols.length = s.encoder.symbols.length + (seq - 1 - s.lastSeq).toNat := by
      rw [hsyms, List.length_append, List.length_replicate]
    have hready : Ready { s with encoder := f, lastSeq := s.lastSeq + ((seq - 1 - s.lastSeq).toNat : Int) } := by
      refine ⟨henc, ?_, ?_⟩ <;> dsimp only <;> omega
    obtain ⟨g, hg, hadds⟩ := encode_adds hready (by dsimp only; omega) symbol
    have hr : s.addSymbol symbol seq = ({ s with encoder := g, lastSeq := seq }, true) := by
      rw [addSymbol, hf]
      dsimp only at hg ⊢
      rw [if_pos rfl, hg]
      rfl
    rw [hr]
    show g.symbols.length = 0x10000
    rw [hadds.symbols, List.length_append, List.length_singleton]
    dsimp only
    omega
  · -- The limit is passed by one, and then nothing more is added.
    obtain ⟨m, n, hmn, hm⟩ : ∃ m n : Nat, (seq - 1 - s.lastSeq).toNat = m + n ∧ s.lastSeq + m - s.baseSeq = 0xFFFF :=
      ⟨(s.baseSeq + 0xFFFF - s.lastSeq).toNat, (seq - 1 - s.baseSeq - 0xFFFF).toNat, by omega, by omega⟩
    obtain ⟨f, hf, henc, hsyms⟩ := addMissing_adds m h (by omega)
    have hlen : f.symbols.length = s.encoder.symbols.length + m := by
      rw [hsyms, List.length_append, List.length_replicate]
    have hover : 0xFFFF < s.lastSeq + (m : Int) - s.baseSeq + 1 := by omega
    have hstuck : (addMissing (m + n) s).1 = { s with encoder := f, lastSeq := s.lastSeq + m } := by
      rw [addMissing_add, hf]
      exact addMissing_stuck hover n
    have hsame : (s.addSymbol symbol seq).1 = { s with encoder := f, lastSeq := s.lastSeq + m } := by
      rw [addSymbol, hmn]
      dsimp only
      split
      · have hfail : (addMissing (m + n) s).1.encode symbol = ((addMissing (m + n) s).1, false) := by
          rw [hstuck]
          exact if_pos hover
        rw [hfail]
        exact hstuck
      · exact hstuck
    rw [hsame]
    dsimp only
    omega

theorem withReceivedPacket_addSymbol {s : Builder} {packet : UInt16 × Int}
    (hnew : s.unwrap packet.1 = s.baseSeq ∨ s.lastSeq < s.unwrap packet.1) (htime : s.TimeFits packet.2) :
    (s.withReceivedPacket packet).1.encoder = (s.addSymbol (symbolOf (s.ticks packet.2))
      (s.unwrap packet.1)).1.encoder ∧
      (s.withReceivedPacket packet).1.lastSeq = (s.addSymbol (symbolOf (s.ticks packet.2))
        (s.unwrap packet.1)).1.lastSeq ∧
      (s.withReceivedPacket packet).1.baseSeq = (s.addSymbol (symbolOf (s.ticks packet.2))
          (s.unwrap packet.1)).1.baseSeq := by
  have hdelta : i16 (s.ticks packet.2) = s.ticks packet.2 := htime
  have hlate : ¬ (s.unwrap packet.1 ≠ s.baseSeq ∧ s.unwrap packet.1 ≤ s.lastSeq) := by omega
  unfold withReceivedPacket
  dsimp only
  rw [if_neg hlate, if_neg (fun hne => hne hdelta), hdelta]
  split <;> exact ⟨rfl, rfl, rfl⟩

/-- A call after which the books balance was regular. -/
theorem regular_of_counted {s : Builder} (h : Books s) {packet : UInt16 × Int}
    (hafter : Counted (s.withReceivedPacket packet).1) : Regular s packet := by
  intro htime
  have horder := h.order
  have hcount := hafter.count
  have hlimit := hafter.limit
  -- Nothing before the base.
  have hfirst : s.encoder.symbols = [] → s.unwrap packet.1 ≤ s.baseSeq := by
    intro hnil
    by_contra hgt
    have hfresh := h.fresh hnil
    have hle := unwrap_le (Int.le_trans h.nonneg horder) packet.1
    obtain ⟨f, hf, -, hsyms⟩ := @addSymbol_adds s h.ready (symbolOf (s.ticks packet.2)) (s.unwrap packet.1) (by omega)
      (by omega)
    obtain ⟨henc, hlast, hbase⟩ := withReceivedPacket_addSymbol (Or.inr (by omega)) htime
    have hlen : f.symbols.length = (s.unwrap packet.1 - 1 - s.lastSeq).toNat + 1 := by
      rw [hsyms, hnil, List.nil_append, List.length_append, List.length_replicate, List.length_singleton]
    rw [henc, hlast, hbase, hf] at hcount
    rcases hcount with h0 | hcount
    · rw [show f.symbols = [] from h0, List.length_nil] at hlen
      omega
    · dsimp only at hcount
      omega
  refine ⟨hfirst, ?_, ?_⟩
  · -- The base once only.
    intro hu
    by_contra hsome
    have hold := h.counted.count.resolve_left hsome
    have hlen0 := h.counted.limit
    have hpos := List.length_pos_of_ne_nil hsome
    obtain ⟨f, hf, hsyms⟩ := addSymbol_base h.ready (by omega) (symbolOf (s.ticks packet.2))
    obtain ⟨henc, hlast, hbase⟩ := withReceivedPacket_addSymbol (Or.inl hu) htime
    have hlen : f.symbols.length = s.encoder.symbols.length + 1 := by
      rw [hsyms, List.length_append, List.length_singleton]
    rw [henc, hlast, hbase, hu, hf] at hcount
    rcases hcount with h0 | hcount
    · rw [show f.symbols = [] from h0, List.length_nil] at hlen
      omega
    · dsimp only at hcount
      omega
  · -- Not too far.
    by_contra hfar
    by_cases hnil : s.encoder.symbols = []
    · have := hfirst hnil
      omega
    · have hold := h.counted.count.resolve_left hnil
      have hlen0 := h.counted.limit
      obtain ⟨henc, -, -⟩ := withReceivedPacket_addSymbol (s := s) (Or.inr (by omega)) htime
      have hlen := @addSymbol_far s h.ready hold (by omega) (symbolOf (s.ticks packet.2)) (s.unwrap packet.1) (by omega)
      rw [henc, hlen] at hlimit
      omega

theorem regular_of_balanced {s : Builder} (h : Books s) {packets : List (UInt16 × Int)}
    (hc : Machine.Always withReceivedPacket Counted s packets) :
    Machine.Meets withReceivedPacket Regular s packets := by
  induction packets generalizing s with
  | nil => trivial
  | cons packet rest ih =>
    have hreg := regular_of_counted h hc.2.head
    refine ⟨hreg, ?_⟩
    cases books_step h hreg with
    | refused same =>
      have hnext : (s.withReceivedPacket packet).1 = s := by rw [same]
      exact ih (hnext.symm ▸ h) hc.2
    | accepted result books last added newer => exact ih books hc.2

/-- **When the books balance**: the base is reported first and only once, and nothing is reported that
would need more than 0xFFFF statuses. -/
theorem balanced_iff (sender media : UInt32) (feedbackSeq : UInt8) (base : UInt16) (ref : Int)
    (packets : List (UInt16 × Int)) :
    Balanced (withBase sender media feedbackSeq base ref) packets ↔
      Machine.Meets withReceivedPacket Regular (withBase sender media feedbackSeq base ref) packets :=
  ⟨fun h => regular_of_balanced (books_withBase sender media feedbackSeq base ref) h.counted,
    balanced_of_books (books_withBase sender media feedbackSeq base ref)⟩

/-- The base is reported a second time, and the last number falls back. -/
theorem not_balanced_again : ¬ Balanced (withBase 1 2 0 1 0) [(1, 0), (2, 0), (1, 0)] := by
  intro h
  have hback := h.forward.2.2.1
  revert hback
  decide

end WebRtc.Feedback
