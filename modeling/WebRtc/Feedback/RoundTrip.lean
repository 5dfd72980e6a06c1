import Mathlib.Data.List.Forall2
import WebRtc.Feedback.Counts
import WebRtc.Feedback.Message

/-!
# From reports to a message and back

A run of calls that are all accepted keeps `Reported`: the statuses, the deltas and the times are those
of the reports so far. A message in such a state can be sent, and what is read back is all of it.
-/

namespace WebRtc.Feedback

open CInt Builder WebRtc.Rtcp

/-- The call for a packet with its full number. -/
def packetOf (report : Int × Int) : UInt16 × Int := (u16 report.1, report.2)

/-- The times the deltas stand for, from `time` on. -/
def arrivals : Int → List Int → List Int
  | _, [] => []
  | time, delta :: rest => (time + delta * 250) :: arrivals (time + delta * 250) rest

/-- Within half a tick. -/
def Near (arrival : Int) (report : Int × Int) : Prop := (arrival - report.2).natAbs ≤ 125

theorem arrivals_snoc (time : Int) (deltas : List Int) (delta : Int) :
    arrivals time (deltas ++ [delta]) = arrivals time deltas ++ [time + deltas.sum * 250 + delta * 250] := by
  induction deltas generalizing time with
  | nil => simp [arrivals]
  | cons d deltas ih =>
    rw [List.cons_append, arrivals, ih, arrivals, List.cons_append, List.sum_cons]
    congr 3
    omega

/-- Rounding is off by half a tick at most. -/
theorem ticks_near (s : Builder) (time : Int) : (s.lastTimestamp + s.ticks time * 250 - time).natAbs ≤ 125 := by
  unfold ticks
  dsimp only
  split
  · have h := Int.tmod_add_tdiv_mul (time - s.lastTimestamp + -125) 250
    have h1 := Int.tmod_nonneg 250 (show 0 ≤ -(time - s.lastTimestamp + -125) by omega)
    rw [Int.neg_tmod] at h1
    have h2 := Int.lt_tmod_of_pos (time - s.lastTimestamp + -125) (b := 250) (by decide)
    omega
  · have h := Int.tmod_add_tdiv_mul (time - s.lastTimestamp + 125) 250
    have hpos : 0 ≤ time - s.lastTimestamp + 125 := by omega
    have h1 := Int.tmod_nonneg 250 hpos
    have h2 := Int.tmod_lt_of_pos (time - s.lastTimestamp + 125) (b := 250) (by decide)
    omega

/-! ## Numbers -/

/-- The base is taken for the base. -/
theorem unwrap_base {s : Builder} {base : UInt16} (hlast : s.lastSeq = base.toNat) : s.unwrap base = base.toNat := by
  have h := base.toNat_lt
  have htn := toNat_lastSeq s
  have hold : ¬ isNewerSequenceNumber base (UInt16.ofNat (s.lastSeq % 65536).toNat) = true := by
    intro hnew
    have hd := (isNewer_iff _ _).1 hnew
    omega
  unfold unwrap
  dsimp only
  rw [if_neg hold, hlast]
  simp

/-- A newer number is taken for what it is, or for one to be refused. -/
theorem unwrap_number {s : Builder} {n : Int} (h0 : 0 ≤ s.baseSeq) (h1 : s.baseSeq ≤ 65535)
    (horder : s.baseSeq ≤ s.lastSeq)
    (hnew : s.lastSeq < n) (hlimit : n < s.baseSeq + 65536) :
    s.unwrap (u16 n) = n ∨ s.unwrap (u16 n) ≠ s.baseSeq ∧ s.unwrap (u16 n) ≤ s.lastSeq := by
  have hu := toNat_u16 n
  have htn := toNat_lastSeq s
  unfold unwrap
  dsimp only
  by_cases hnewer : isNewerSequenceNumber (u16 n) (UInt16.ofNat (s.lastSeq % 65536).toNat) = true
  · rw [if_pos hnewer]
    have hd := (isNewer_iff _ _).1 hnewer
    left
    split <;> omega
  · rw [if_neg hnewer]
    rw [isNewer_iff] at hnewer
    right
    split <;> omega

/-! ## The reports so far -/

/-- The statuses, deltas and times of `reports`, for a message that starts like `s0`. -/
structure Reported (s0 s : Builder) (reports : List (Int × Int)) : Prop where
  books : Books s
  fixed : s.packetSenderSsrc = s0.packetSenderSsrc ∧ s.mediaSourceSsrc = s0.mediaSourceSsrc ∧ s.baseSeq = s0.baseSeq ∧
    s.baseTime = s0.baseTime ∧ s.feedbackSeq = s0.feedbackSeq
  fresh : s.encoder.symbols = [] ↔ reports = []
  bound : ∀ r ∈ reports, r.1 ≤ s.lastSeq
  last : ∀ r, reports.getLast? = some r → s.lastSeq = r.1
  status : ∀ i : Nat, s.encoder.symbols[i]? = some .notReceived ↔
    i < s.encoder.symbols.length ∧ ∀ r ∈ reports, r.1 ≠ s.baseSeq + i
  kinds : s.encoder.symbols.filter (· ≠ .notReceived) = s.receiveDeltas.map symbolOf
  range : ∀ d ∈ s.receiveDeltas, InRange d
  timestamp : s.lastTimestamp = s0.lastTimestamp + s.receiveDeltas.sum * 250
  times : List.Forall₂ Near (arrivals s0.lastTimestamp s.receiveDeltas) reports

theorem reported_withBase (sender media : UInt32) (feedbackSeq : UInt8) (base : UInt16) (ref : Int) :
    Reported (withBase sender media feedbackSeq base ref) (withBase sender media feedbackSeq base ref) [] where
  books := books_withBase sender media feedbackSeq base ref
  fixed := ⟨rfl, rfl, rfl, rfl, rfl⟩
  fresh := iff_of_true rfl rfl
  bound _ hr := nomatch hr
  last _ hr := nomatch hr
  status i := ⟨(fun h => nomatch h), fun h => absurd h.1 (Nat.not_lt_zero i)⟩
  kinds := rfl
  range _ hd := nomatch hd
  timestamp := (Int.add_zero _).symm
  times := .nil

theorem inRange_i16 {x : Int} (h : i16 x = x) : InRange x := h ▸ i16_range x

variable {s0 s : Builder} {reports : List (Int × Int)}

/-- The next number is after the last, or it is the base. -/
structure Next (s : Builder) (reports : List (Int × Int)) (report : Int × Int) : Prop where
  first : reports = [] → report.1 = s.baseSeq
  newer : ∀ r, reports.getLast? = some r → r.1 < report.1
  covered : report.1 < s.baseSeq + 65535

theorem lastSeq_lt (h : Reported s0 s reports) {report : Int × Int} (hn : Next s reports report) (hne : reports ≠ []) :
    s.lastSeq < report.1 := by
  have hlast := List.getLast?_eq_some_getLast hne
  rw [h.last _ hlast]
  exact hn.newer _ hlast

theorem unwrap_next (h : Reported s0 s reports) {report : Int × Int} (hn : Next s reports report)
    (h1 : s.baseSeq ≤ 65535)
    (htrue : (s.withReceivedPacket (packetOf report)).2 = true) : s.unwrap (packetOf report).1 = report.1 := by
  have h0 := h.books.nonneg
  have hu := toNat_u16 report.1
  have hcover := hn.covered
  by_cases hnil : reports = []
  · have hbase := hn.first hnil
    have hlast := h.books.fresh (h.fresh.2 hnil)
    have hself := @unwrap_base s (u16 report.1) (by omega)
    show s.unwrap (u16 report.1) = _
    omega
  · rcases unwrap_number h0 h1 h.books.order (lastSeq_lt h hn hnil) (by omega) with hsame | hlate
    · exact hsame
    · have hfalse : s.withReceivedPacket (packetOf report) = (s, false) := if_pos hlate
      rw [hfalse] at htrue
      cases htrue

theorem regular_next (h : Reported s0 s reports) {report : Int × Int} (hn : Next s reports report)
    (hu : s.unwrap (packetOf report).1 = report.1) : Regular s (packetOf report) := by
  have horder := h.books.order
  have hcover := hn.covered
  intro _
  rw [hu]
  refine ⟨fun hnil => Int.le_of_eq (hn.first (h.fresh.1 hnil)), fun hb => ?_, by omega⟩
  by_contra hsome
  have hlt := lastSeq_lt h hn fun hnil => hsome (h.fresh.2 hnil)
  omega

/-- The statuses of the numbers up to the new one. -/
theorem status_snoc (h : Reported s0 s reports) {report : Int × Int} (hn : Next s reports report)
    {symbol : StatusSymbol}
    (hsym : symbol ≠ .notReceived) {symbols : List StatusSymbol}
    (hsyms : symbols = s.encoder.symbols ++ List.replicate (report.1 - 1 - s.lastSeq).toNat .notReceived ++ [symbol])
    (i : Nat) : symbols[i]? = some .notReceived ↔ i < symbols.length ∧ ∀ r ∈ reports ++
    [report], r.1 ≠ s.baseSeq + i := by
  -- Before the call the statuses end with the last number.
  have hcount : s.encoder.symbols ≠ [] → (s.encoder.symbols.length : Int) = s.lastSeq - s.baseSeq + 1 :=
    fun hne => h.books.counted.count.resolve_left hne
  have hplace : (s.encoder.symbols.length : Int) + (report.1 - 1 - s.lastSeq).toNat = report.1 - s.baseSeq := by
    by_cases hnil : s.encoder.symbols = []
    · have hbase := hn.first (h.fresh.1 hnil)
      have hlast := h.books.fresh hnil
      rw [hnil, List.length_nil]
      omega
    · have hlt := lastSeq_lt h hn fun hr => hnil (h.fresh.2 hr)
      have := hcount hnil
      omega
  have hlen : symbols.length = s.encoder.symbols.length + (report.1 - 1 - s.lastSeq).toNat + 1 := by
    rw [hsyms, List.length_append, List.length_append, List.length_replicate, List.length_singleton]
  have hall : (∀ r ∈ reports ++ [report], r.1 ≠ s.baseSeq + i) ↔
      (∀ r ∈ reports, r.1 ≠ s.baseSeq + i) ∧ report.1 ≠ s.baseSeq + i := by
    simp only [List.forall_mem_append, List.forall_mem_singleton]
  rw [hall]
  rcases Nat.lt_trichotomy i (s.encoder.symbols.length + (report.1 - 1 - s.lastSeq).toNat) with hlt | rfl | hgt
  · rw [hsyms, List.getElem?_append_left (by rw [List.length_append, List.length_replicate]; exact hlt)]
    have hother : report.1 ≠ s.baseSeq + i := by omega
    by_cases hold : i < s.encoder.symbols.length
    · rw [List.getElem?_append_left hold, h.status i, ← hsyms]
      constructor
      · rintro ⟨-, hr⟩
        exact ⟨by omega, hr, hother⟩
      · rintro ⟨-, hr, -⟩
        exact ⟨hold, hr⟩
    · rw [List.getElem?_append_right (by omega), List.getElem?_replicate, if_pos (by omega), ← hsyms]
      refine iff_of_true rfl ⟨by omega, fun r hr => ?_, hother⟩
      have hle := h.bound r hr
      by_cases hnil : s.encoder.symbols = []
      · rw [h.fresh.1 hnil] at hr
        cases hr
      · have := hcount hnil
        omega
  · refine iff_of_false ?_ ?_
    · rw [hsyms, List.getElem?_append_right (by rw [List.length_append, List.length_replicate])]
      simpa using hsym
    · rintro ⟨-, -, hr⟩
      omega
  · refine iff_of_false ?_ ?_
    · rw [List.getElem?_eq_none (by omega)]
      exact fun hc => nomatch hc
    · rintro ⟨hi, -⟩
      omega

theorem reported_step (h : Reported s0 s reports) {report : Int × Int} (hn : Next s reports report)
    (h1 : s.baseSeq ≤ 65535)
    (htrue : (s.withReceivedPacket (packetOf report)).2 = true) :
    Reported s0 (s.withReceivedPacket (packetOf report)).1 (reports ++ [report]) := by
  have hu := unwrap_next h hn h1 htrue
  have hreg := regular_next h hn hu
  have hbooks : Books (s.withReceivedPacket (packetOf report)).1 := by
    cases books_step h.books hreg with
    | refused same =>
      rw [same]
      exact h.books
    | accepted result books last added newer => exact books
  have hcases := withReceivedPacket_cases h.books.ready (packetOf report) (fun ht hb => h.books.fresh
    ((hreg ht).2.1 hb))
    fun ht => (hreg ht).2.2
  cases hcases with
  | refused same why =>
    rw [same] at htrue
    cases htrue
  | accepted f result time new encoded symbols =>
    rw [hu] at symbols
    rw [result] at hbooks ⊢
    have hend : s.lastSeq ≤ report.1 := by
      by_cases hnil : reports = []
      · have := hn.first hnil
        have := h.books.fresh (h.fresh.2 hnil)
        omega
      · exact Int.le_of_lt (lastSeq_lt h hn hnil)
    constructor
    · exact hbooks
    · exact h.fixed
    · refine iff_of_false ?_ (by simp)
      show f.symbols ≠ []
      rw [symbols]
      simp
    · intro r hr
      show r.1 ≤ s.unwrap (packetOf report).1
      rw [hu]
      rcases List.mem_append.1 hr with hr | hr
      · exact Int.le_trans (h.bound r hr) hend
      · rw [List.mem_singleton.1 hr]
    · intro r hr
      rw [List.getLast?_concat] at hr
      rw [← Option.some.inj hr]
      exact hu
    · exact status_snoc h hn (symbolOf_ne _) symbols
    · show f.symbols.filter _ = (s.receiveDeltas ++ [s.ticks report.2]).map symbolOf
      rw [symbols, List.filter_append, List.filter_append, h.kinds, List.map_append]
      simp [symbolOf_ne, packetOf]
    · intro d hd
      rcases List.mem_append.1 hd with hd | hd
      · exact h.range d hd
      · rw [List.mem_singleton.1 hd]
        exact inRange_i16 time
    · show s.lastTimestamp + s.ticks report.2 * 250 = s0.lastTimestamp +
        (s.receiveDeltas ++ [s.ticks report.2]).sum * 250
      rw [List.sum_append, List.sum_singleton, h.timestamp]
      omega
    · show List.Forall₂ Near (arrivals s0.lastTimestamp (s.receiveDeltas ++ [s.ticks report.2])) (reports ++ [report])
      rw [arrivals_snoc, ← h.timestamp]
      exact List.rel_append h.times (.cons (ticks_near s report.2) .nil)

/-! ## Whole messages -/

/-- Reports as a message takes them: the base first, then newer numbers, at most 65535 of them covered. -/
structure Reports (base : Int) (reports : List (Int × Int)) : Prop where
  first : ∀ r, reports.head? = some r → r.1 = base
  newer : reports.Pairwise fun r r' => r.1 < r'.1
  covered : ∀ r ∈ reports, r.1 < base + 65535

theorem next_of_reports {base : Int} {rest : List (Int × Int)} {report : Int × Int}
    (h : Reports base (reports ++ report :: rest)) (hs : s.baseSeq = base) : Next s reports report where
  first hnil := by
    rw [hs]
    exact h.first report (by rw [hnil]; rfl)
  newer r hr := by
    have hpw := (List.pairwise_append.1 h.newer).2.2
    exact hpw r (List.mem_of_getLast? hr) report List.mem_cons_self
  covered := hs ▸ h.covered report (List.mem_append_right _ List.mem_cons_self)

/-- Calls that are all accepted. -/
theorem reported_run {rest : List (Int × Int)} (h : Reported s0 s reports) (hr : Reports s0.baseSeq (reports ++ rest))
    (h1 : s0.baseSeq ≤ 65535)
    (htrue : ∀ b ∈ Machine.trace withReceivedPacket s (rest.map packetOf), b = true) :
    Reported s0 (Machine.run withReceivedPacket s (rest.map packetOf)) (reports ++ rest) := by
  induction rest generalizing s reports with
  | nil =>
    rw [List.append_nil]
    exact h
  | cons report rest ih =>
    have hbase : s.baseSeq = s0.baseSeq := h.fixed.2.2.1
    have hn := next_of_reports hr hbase
    have hstep := reported_step h hn (hbase ▸ h1) (htrue _ List.mem_cons_self)
    have hsplit : reports ++ report :: rest = reports ++ [report] ++ rest :=
      by rw [List.append_assoc, List.singleton_append]
    rw [hsplit] at hr ⊢
    exact ih hstep hr fun b hb => htrue b (List.mem_cons_of_mem _ hb)

theorem sendable_of_reported (h : Reported s0 s reports) (hne : reports ≠ []) (h1 : s.baseSeq ≤ 65535)
    (htime : -8388608 ≤ s.baseTime ∧ s.baseTime < 8388608) : Sendable s := by
  have hsome : s.encoder.symbols ≠ [] := fun hnil => hne (h.fresh.1 hnil)
  exact ⟨h.books.encoded, ⟨h.books.nonneg, h1⟩, htime, h.books.counted.count.resolve_left hsome,
    ⟨List.length_pos_of_ne_nil hsome, h.books.counted.limit⟩, h.kinds, h.range⟩

/-- The packet that `s` is written to, in a buffer of `maxLength` bytes, and the message that is read
from it. -/
structure Transmits (s : Builder) (maxLength : Nat) (packet : List UInt8) (message : Builder) : Prop where
  create : s.create maxLength ⟨[], []⟩ = some ⟨packet, []⟩
  fits : packet.length ≤ maxLength
  padding : ∃ n, packet = s.bytes ++ List.replicate n 0
  sizeBytes : s.bytes.length = s.encoder.sizeBytes
  parsed : parseFrom packet = some message
  senderSsrc : message.packetSenderSsrc = s.packetSenderSsrc
  mediaSsrc : message.mediaSourceSsrc = s.mediaSourceSsrc
  base : message.baseSeq = s.baseSeq
  baseTime : message.baseTime = s.baseTime
  feedbackSeq : message.feedbackSeq = s.feedbackSeq
  deltas : message.receiveDeltas = s.receiveDeltas

theorem transmits_received (h : Sendable s) {maxLength : Nat} (hmax : (s.encoder.sizeBytes + 3) / 4 * 4 ≤ maxLength) :
    Transmits s maxLength (padded s.bytes) (received s) where
  create := by
    have hbase : ¬ s.baseSeq = -1 := by
      have := h.base
      omega
    have hroom : ([] : List UInt8).length + s.encoder.sizeBytes ≤ maxLength := by
      rw [List.length_nil]
      omega
    rw [Builder.create, if_neg hbase, Buffers.makeRoom, if_pos hroom]
    rfl
  fits := by
    rw [length_padded, length_bytes h]
    exact hmax
  padding := ⟨_, rfl⟩
  sizeBytes := length_bytes h
  parsed := parseFrom_padded h
  senderSsrc := rfl
  mediaSsrc := rfl
  base := rfl
  baseTime := rfl
  feedbackSeq := rfl
  deltas := rfl

/-- What a message says about the reports. -/
structure Tells (message : Builder) (reports : List (Int × Int)) : Prop where
  statuses : ∀ r, reports.getLast? = some r → (message.getStatusVector.length : Int) = r.1 - message.baseSeq + 1
  notReceived : ∀ i : Nat, message.getStatusVector[i]? = some .notReceived ↔
    i < message.getStatusVector.length ∧ ∀ r ∈ reports, r.1 ≠ message.baseSeq + i
  times : List.Forall₂ Near (arrivals (message.baseTime * 64000) message.receiveDeltas) reports

/-- **What was reported is what is read.** -/
theorem feedback_roundTrip (sender media : UInt32) (feedbackSeq : UInt8) (base : UInt16) {ref : Int}
    (htime : -8388608 ≤ ref.tdiv 64000 ∧ ref.tdiv 64000 < 8388608) {reports : List (Int × Int)} (hne : reports ≠ [])
    (hreports : Reports base.toNat reports)
    (htrue : ∀ b ∈ Machine.trace withReceivedPacket (withBase sender media feedbackSeq base ref) (reports.map packetOf),
      b = true)
    {s : Builder} (hs : s = Machine.run withReceivedPacket
    (withBase sender media feedbackSeq base ref) (reports.map packetOf))
    {maxLength : Nat} (hmax : (s.encoder.sizeBytes + 3) / 4 * 4 ≤ maxLength) :
    ∃ packet message, Transmits s maxLength packet message ∧ message.packetSenderSsrc = sender ∧
      message.mediaSourceSsrc = media ∧ message.baseSeq = base.toNat ∧ message.baseTime = ref.tdiv 64000 ∧
      message.feedbackSeq = feedbackSeq ∧ Tells message reports := by
  have hbase := base.toNat_lt
  have hrun : Reported (withBase sender media feedbackSeq base ref) s reports := by
    rw [hs]
    exact @reported_run _ _ [] _ (reported_withBase sender media feedbackSeq base ref) hreports
      (show (base.toNat : Int) ≤ 65535 by omega) htrue
  obtain ⟨h1, h2, h3, h4, h5⟩ := hrun.fixed
  have h3 : s.baseSeq = base.toNat := h3
  have h4 : s.baseTime = ref.tdiv 64000 := h4
  have hsend := sendable_of_reported hrun hne (by omega) (h4 ▸ htime)
  have hvector := getStatusVector_received hsend
  refine ⟨_, _, transmits_received hsend hmax, h1, h2, h3, h4, h5, ?_, ?_, ?_⟩
  · intro r hr
    have hlast := hrun.last r hr
    rw [hvector, hsend.count, hlast]
    rfl
  · intro i
    rw [hvector]
    exact hrun.status i
  · have ht := hrun.times
    have hzero : (withBase sender media feedbackSeq base ref).lastTimestamp = s.baseTime * 64000 := by
      rw [h4]
      rfl
    rw [hzero] at ht
    exact ht

/-- Three packets of four across the wrap, one of them late by more than a byte of ticks. -/
theorem feedback_roundTrip_wrap : ∃ packet message,
    Transmits (Machine.run withReceivedPacket (withBase 1 2 3 65534 640000)
      ([(65534, 641000), (65535, 641100), (65537, 900000)].map packetOf)) 28 packet message ∧
      message.packetSenderSsrc = 1 ∧ message.mediaSourceSsrc = 2 ∧ message.baseSeq = (65534 : UInt16).toNat ∧
      message.baseTime = (640000 : Int).tdiv 64000 ∧ message.feedbackSeq = 3 ∧
      Tells message [(65534, 641000), (65535, 641100), (65537, 900000)] :=
  feedback_roundTrip 1 2 3 65534 (by decide) (by decide)
    ⟨fun r hr => by cases hr; rfl, by decide, by decide⟩ (by decide) rfl (by decide)

end WebRtc.Feedback
