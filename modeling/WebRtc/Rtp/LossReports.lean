import WebRtc.Lib.Machine
import WebRtc.Rtp.Statistics

/-!
# Lost packets

What is lost between two reports is what the numbers go on by, less the packets that have come. The source takes
the difference of the numbers in 16 bits and has nothing expected when the number is smaller than in the last
report: what is lost when the numbers wrap is never counted (`reports_exact`, `wrap_not_counted`).
-/

namespace WebRtc.Rtp

open CInt StreamStatistician

/-! ## What has happened -/

/-- The numbers from the first one to the newest, the packets that have come, and both at the last report. -/
structure Truth where
  first : UInt16
  newest : UInt16
  span : Nat
  packets : Nat
  reportedSpan : Nat
  reportedPackets : Nat
deriving DecidableEq, Repr

structure LossReport where
  fractionLost : Nat
  cumulativeLost : Nat
  distance : Nat
deriving DecidableEq, Repr

namespace Truth

def start : Truth := ⟨0, 0, 0, 0, 0, 0⟩

variable (t : Truth)

def gap (sequenceNumber : UInt16) : Nat := (sequenceNumber - t.newest).toNat

def receive (sequenceNumber : UInt16) : Truth :=
  if t.packets = 0 then { t with first := sequenceNumber, newest := sequenceNumber, span := 1, packets := 1 }
  else { t with newest := sequenceNumber, span := t.span + t.gap sequenceNumber, packets := t.packets + 1 }

def expected : Nat := t.span - t.reportedSpan

/-- The numbers skipped since the last report. -/
def lost : Nat := t.expected - (t.packets - t.reportedPackets)

def lossReport : Option LossReport :=
  if t.packets = 0 then none
  else some
    { fractionLost := if t.expected = 0 then 0 else 255 * t.lost / t.expected
      cumulativeLost := t.span - t.packets
      distance := t.span - 1 }

def report : Truth := { t with reportedSpan := t.span, reportedPackets := t.packets }

/-- How often the numbers have begun again at 0, when `k` of them have been used up. -/
def cycle (k : Nat) : Nat := (t.first.toNat + k + 65535) / 65536

end Truth

/-! ## Runs -/

inductive Event where
  | packet (a : Arrival)
  /-- `GetStatistics` with `reset`. -/
  | report
deriving DecidableEq, Repr

/-- What a report says, with the first number taken off the extended one. -/
def lossReportOf (first : UInt16) (r : RtcpStatistics) : LossReport :=
  ⟨r.fractionLost.toNat, r.cumulativeLost.toNat, (r.extendedMaxSequenceNumber - UInt32.ofNat first.toNat).toNat⟩

section Runs
variable (convertNTPTimeToRTP : UInt32 → UInt32 → Int → UInt32)

/-- A step gives the report and the true one. -/
def statisticsStep (p : StreamStatistician × Truth) :
    Event → (StreamStatistician × Truth) × (Option LossReport × Option LossReport)
  | .packet a => ((updateCounters convertNTPTimeToRTP p.1 a, p.2.receive a.header.sequenceNumber), (none, none))
  | .report => (((p.1.getStatistics true).2, p.2.report),
      ((p.1.getStatistics true).1.map (lossReportOf p.2.first), p.2.lossReport))

/-- The numbers go up, by less than half of them at a time. -/
def GoesUp (p : StreamStatistician × Truth) : Event → Prop
  | .packet a => p.2.packets ≠ 0 → 0 < p.2.gap a.header.sequenceNumber ∧ p.2.gap a.header.sequenceNumber < 0x8000
  | .report => True

/-- A report covers no wrap, or nothing is lost; there has been some payload, or the first number is not
0; and there are less than 2^32 numbers. -/
def Clean (p : StreamStatistician × Truth) : Event → Prop
  | .packet a => (p.2.receive a.header.sequenceNumber).span < 4294967296
  | .report => p.2.packets ≠ 0 → (p.2.first ≠ 0 ∨ p.1.transmitted.payloadBytes ≠ 0) ∧
      (p.2.lost = 0 ∨ p.2.cycle p.2.reportedSpan = p.2.cycle p.2.span)

/-- What the statistics have of what has happened. -/
structure Tracks (s : StreamStatistician) (t : Truth) : Prop where
  packets : s.transmitted.packets.toNat = t.packets
  retransmitted : s.retransmitted.packets = 0
  fresh : t.packets = 0 → t.span = 0 ∧ s.lastReceiveTimeMs = 0 ∧ s.receivedSeqFirst = 0 ∧
    s.transmitted.payloadBytes = 0 ∧
    s.receivedSeqWraps = 0
  first : t.packets ≠ 0 → s.receivedSeqFirst = t.first
  newest : t.packets ≠ 0 → s.receivedSeqMax = t.newest
  number : t.packets ≠ 0 → t.newest.toNat = (t.first.toNat + t.span + 65535) % 65536
  wraps : t.packets ≠ 0 → s.receivedSeqWraps.toNat = (t.first.toNat + t.span - 1) / 65536 % 65536
  counts : t.packets ≤ t.span ∧ t.span < 4294967296
  since : t.reportedPackets ≤ t.packets ∧ t.reportedPackets ≤ t.reportedSpan ∧
    t.reportedSpan + t.packets ≤ t.span + t.reportedPackets
  none : t.reportedPackets = 0 → t.reportedSpan = 0
  reported : s.lastReportInorderPackets.toNat = t.reportedPackets
  reportedOld : s.lastReportOldPackets = 0
  reportedMax : t.reportedPackets ≠ 0 → s.lastReportSeqMax.toNat = (t.first.toNat + t.reportedSpan + 65535) % 65536
  cumulative : s.cumulativeLoss.toNat = t.reportedSpan - t.reportedPackets

theorem tracks_create : Tracks create .start := by
  constructor <;> simp [create, Truth.start]

/-! ## A packet -/

variable {convertNTPTimeToRTP} {s : StreamStatistician} {t : Truth}

theorem updateJitter_eq (a : Arrival) : ∃ j, updateJitter convertNTPTimeToRTP s a = { s with jitterQ4 := j } := by
  unfold updateJitter
  dsimp only
  split
  · exact ⟨_, rfl⟩
  · exact ⟨s.jitterQ4, rfl⟩

/-- What a packet in order changes. -/
theorem updateCounters_inOrder {a : Arrival} (h : s.inOrderPacketInternal a.header.sequenceNumber = true) :
    ∃ j, updateCounters convertNTPTimeToRTP s a = { s with
      transmitted := s.transmitted.addPacket a.packetLength a.header
      receivedSeqFirst := if s.transmitted.packets + 1 = 1 then a.header.sequenceNumber else s.receivedSeqFirst
      receivedSeqWraps :=
        if s.transmitted.packets + 1 > 1 ∧ s.receivedSeqMax > a.header.sequenceNumber then
          s.receivedSeqWraps + 1 else s.receivedSeqWraps
      receivedSeqMax := a.header.sequenceNumber
      jitterQ4 := j
      lastReceivedTimestamp := a.header.timestamp
      lastReceiveTimeSecs := a.ntpSecs
      lastReceiveTimeFrac := a.ntpFrac
      lastReceiveTimeMs := a.timeMs } := by
  unfold updateCounters
  simp only [h, Bool.not_true, Bool.false_and, Bool.false_eq_true, if_false, if_true, RtpPacketCounter.addPacket]
  split <;> split <;> split <;> first
    | exact ⟨_, rfl⟩
    | (obtain ⟨j, hj⟩ := @updateJitter_eq convertNTPTimeToRTP _ a
       rw [hj]
       exact ⟨j, rfl⟩)

theorem inOrder_of_goesUp (h : Tracks s t) {a : Arrival} (hup : GoesUp (s, t) (.packet a)) :
    s.inOrderPacketInternal a.header.sequenceNumber = true := by
  unfold inOrderPacketInternal
  by_cases h0 : t.packets = 0
  · rw [if_pos (h.fresh h0).2.1]
  · have hnewer : isNewerSequenceNumber a.header.sequenceNumber s.receivedSeqMax = true := by
      rw [isNewerSequenceNumber_iff, h.newest h0]
      exact ⟨(hup h0).1, Or.inl (hup h0).2⟩
    rw [hnewer]
    split <;> rfl

/-- **A packet is counted.** -/
theorem tracks_packet (h : Tracks s t) {a : Arrival} (hup : GoesUp (s, t) (.packet a))
    (hclean : Clean (s, t) (.packet a)) :
    Tracks (updateCounters convertNTPTimeToRTP s a) (t.receive a.header.sequenceNumber) := by
  obtain ⟨j, hj⟩ := @updateCounters_inOrder convertNTPTimeToRTP s a (inOrder_of_goesUp h hup)
  have hcounts := h.counts
  have hsince := h.since
  have hpackets := h.packets
  have hseq := a.header.sequenceNumber.toNat_lt
  have hfirst := t.first.toNat_lt
  have hsucc : (s.transmitted.packets + 1).toNat = (t.packets + 1) % 4294967296 := by
    rw [UInt32.toNat_add, hpackets]
    rfl
  rw [hj]
  by_cases h0 : t.packets = 0
  · obtain ⟨hspan, -, -, -, hwraps⟩ := h.fresh h0
    have hone : s.transmitted.packets + 1 = 1 := by
      apply UInt32.toNat_inj.1
      rw [hsucc, h0]
      rfl
    have hreported : t.reportedPackets = 0 ∧ t.reportedSpan = 0 := by
      have h1 := h.none
      omega
    have hwrap0 : s.receivedSeqWraps.toNat = 0 := by rw [hwraps]; rfl
    simp only [Truth.receive, if_pos h0, hone, if_true, gt_iff_lt, UInt32.lt_irrefl, false_and, if_false]
    constructor
    case packets =>
      show (s.transmitted.packets + 1).toNat = 1
      rw [hone]
      rfl
    case retransmitted => exact h.retransmitted
    case fresh => exact fun hno => absurd hno Nat.one_ne_zero
    case first => exact fun _ => rfl
    case newest => exact fun _ => rfl
    case number =>
      intro _
      show a.header.sequenceNumber.toNat = (a.header.sequenceNumber.toNat + 1 + 65535) % 65536
      omega
    case wraps =>
      intro _
      show s.receivedSeqWraps.toNat = (a.header.sequenceNumber.toNat + 1 - 1) / 65536 % 65536
      omega
    case counts => exact ⟨Nat.le_refl 1, show 1 < 4294967296 by decide⟩
    case since =>
      show t.reportedPackets ≤ 1 ∧ t.reportedPackets ≤ t.reportedSpan ∧ t.reportedSpan + 1 ≤ 1 + t.reportedPackets
      omega
    case none => exact h.none
    case reported => exact h.reported
    case reportedOld => exact h.reportedOld
    case reportedMax => exact fun hno => absurd hreported.1 hno
    case cumulative => exact h.cumulative
  · have hgap0 : 0 < t.gap a.header.sequenceNumber := (hup h0).1
    have hgap1 : t.gap a.header.sequenceNumber < 0x8000 := (hup h0).2
    have hnumber := h.number h0
    have hwraps := h.wraps h0
    have hmax := h.newest h0
    have hgap : t.gap a.header.sequenceNumber = (65536 - t.newest.toNat + a.header.sequenceNumber.toNat) % 65536 :=
      UInt16.toNat_sub a.header.sequenceNumber t.newest
    have hclean' : t.span + t.gap a.header.sequenceNumber < 4294967296 := by
      have hc := hclean
      simp only [Clean, Truth.receive, if_neg h0] at hc
      exact hc
    simp only [Truth.receive, if_neg h0]
    have hnot : ¬ s.transmitted.packets + 1 = 1 := by
      intro heq
      have heq' := congrArg UInt32.toNat heq
      rw [hsucc] at heq'
      have hone : (1 : UInt32).toNat = 1 := rfl
      omega
    have hgt : s.transmitted.packets + 1 > 1 := by
      rw [gt_iff_lt, UInt32.lt_iff_toNat_lt, hsucc]
      have hone : (1 : UInt32).toNat = 1 := rfl
      omega
    simp only [hnot, if_false, hgt, true_and]
    constructor
    case packets =>
      show (s.transmitted.packets + 1).toNat = t.packets + 1
      omega
    case retransmitted => exact h.retransmitted
    case fresh => exact fun hno => absurd hno (Nat.succ_ne_zero _)
    case first => exact fun _ => h.first h0
    case newest => exact fun _ => rfl
    case number =>
      intro _
      show a.header.sequenceNumber.toNat = (t.first.toNat + (t.span + t.gap a.header.sequenceNumber) + 65535) % 65536
      omega
    case wraps =>
      intro _
      show (if s.receivedSeqMax > a.header.sequenceNumber then s.receivedSeqWraps + 1 else s.receivedSeqWraps).toNat =
        (t.first.toNat + (t.span + t.gap a.header.sequenceNumber) - 1) / 65536 % 65536
      by_cases hwrap : s.receivedSeqMax > a.header.sequenceNumber
      · rw [if_pos hwrap, UInt16.toNat_add, hwraps, show (1 : UInt16).toNat = 1 from rfl]
        rw [gt_iff_lt, hmax, UInt16.lt_iff_toNat_lt] at hwrap
        omega
      · rw [if_neg hwrap, hwraps]
        rw [gt_iff_lt, hmax, UInt16.lt_iff_toNat_lt] at hwrap
        omega
    case counts =>
      show t.packets + 1 ≤ t.span + t.gap a.header.sequenceNumber ∧ t.span + t.gap a.header.sequenceNumber < 4294967296
      omega
    case since =>
      show t.reportedPackets ≤ t.packets + 1 ∧ t.reportedPackets ≤ t.reportedSpan ∧
        t.reportedSpan + (t.packets + 1) ≤ t.span + t.gap a.header.sequenceNumber + t.reportedPackets
      omega
    case none => exact h.none
    case reported => exact h.reported
    case reportedOld => exact h.reportedOld
    case reportedMax => exact h.reportedMax
    case cumulative => exact h.cumulative

/-! ## A report -/

section Report
variable (h : Tracks s t) (h0 : t.packets ≠ 0)
include h h0

omit h0 in
/-- The packets received since the last report. -/
theorem recSinceLast_eq : (s.transmitted.packets - s.retransmitted.packets - s.lastReportInorderPackets +
    (s.retransmitted.packets - s.lastReportOldPackets)).toNat = t.packets - t.reportedPackets := by
  have hpackets := h.packets
  have hreported := h.reported
  have hsince := h.since
  have hcounts := h.counts
  rw [h.retransmitted, h.reportedOld, UInt32.sub_zero, UInt32.sub_self, UInt32.add_zero,
    UInt32.toNat_sub, hpackets, hreported]
  omega

/-- The number of the last report, or the one before the first. -/
theorem lastReportSeqMax_eq : (if s.lastReportInorderPackets = 0 then s.receivedSeqFirst - 1
    else s.lastReportSeqMax).toNat =
    (t.first.toNat + t.reportedSpan + 65535) % 65536 := by
  have hreported := h.reported
  have hfirst := t.first.toNat_lt
  by_cases hnone : s.lastReportInorderPackets = 0
  · have hzero : t.reportedSpan = 0 := by
      apply h.none
      rw [← hreported, hnone]
      rfl
    have hone : (1 : UInt16).toNat = 1 := rfl
    rw [if_pos hnone, h.first h0, UInt16.toNat_sub]
    omega
  · have hne : t.reportedPackets ≠ 0 := by
      intro hzero
      apply hnone
      apply UInt32.toNat_inj.1
      rw [hreported, hzero]
      rfl
    rw [if_neg hnone, h.reportedMax hne]

theorem receivedSeqMax_eq : s.receivedSeqMax.toNat = (t.first.toNat + t.span + 65535) % 65536 := by
  rw [h.newest h0, h.number h0]

/-- What is expected, in a run without wrap since the last report; it is never too much. -/
theorem expSinceLast_eq {last : UInt16} (hlast : last.toNat = (t.first.toNat + t.reportedSpan + 65535) % 65536) :
    (if last > s.receivedSeqMax then 0 else s.receivedSeqMax - last).toNat ≤ t.expected ∧
      (t.cycle t.reportedSpan = t.cycle t.span →
        (if last > s.receivedSeqMax then 0 else s.receivedSeqMax - last).toNat = t.expected) := by
  have hmax := receivedSeqMax_eq h h0
  have hsince := h.since
  have hzero : (0 : UInt16).toNat = 0 := rfl
  unfold Truth.expected Truth.cycle
  by_cases hwrap : last > s.receivedSeqMax
  · rw [if_pos hwrap, hzero]
    rw [gt_iff_lt, UInt16.lt_iff_toNat_lt] at hwrap
    omega
  · rw [if_neg hwrap, UInt16.toNat_sub]
    rw [gt_iff_lt, UInt16.lt_iff_toNat_lt] at hwrap
    omega

theorem extendedMax_eq : (UInt32.ofNat (s.receivedSeqWraps.toNat * 65536 + s.receivedSeqMax.toNat) -
    UInt32.ofNat t.first.toNat).toNat = t.span - 1 := by
  have hmax := receivedSeqMax_eq h h0
  have hwraps := h.wraps h0
  have hcounts := h.counts
  have hfirst := t.first.toNat_lt
  rw [UInt32.toNat_sub, UInt32.toNat_ofNat', UInt32.toNat_ofNat']
  omega

end Report

/-- **A report is right.** -/
theorem tracks_report (h : Tracks s t) (hclean : t.packets ≠ 0 → (t.first ≠ 0 ∨ s.transmitted.payloadBytes ≠ 0) ∧
    (t.lost = 0 ∨ t.cycle t.reportedSpan = t.cycle t.span)) :
    Tracks (s.getStatistics true).2 t.report ∧ (s.getStatistics true).1.map (lossReportOf t.first) = t.lossReport := by
  have hsince := h.since
  have hcounts := h.counts
  by_cases h0 : t.packets = 0
  · obtain ⟨hspan, -, hfirst, hpayload, -⟩ := h.fresh h0
    have hreported : t.reportedPackets = 0 ∧ t.reportedSpan = 0 := by
      have hnone := h.none
      omega
    have hsame : t.report = t := by
      show Truth.mk t.first t.newest t.span t.packets t.span t.packets =
        Truth.mk t.first t.newest t.span t.packets t.reportedSpan t.reportedPackets
      rw [hspan, h0, hreported.1, hreported.2]
    rw [getStatistics, if_pos ⟨hfirst, hpayload⟩, hsame, Truth.lossReport, if_pos h0]
    exact ⟨h, rfl⟩
  · obtain ⟨hany, hloss⟩ := hclean h0
    have hsome : ¬ (s.receivedSeqFirst = 0 ∧ s.transmitted.payloadBytes = 0) := by
      rw [h.first h0]
      rintro ⟨hf, hp⟩
      rcases hany with hf' | hp'
      · exact hf' hf
      · exact hp' hp
    have hrec := recSinceLast_eq h
    obtain ⟨hle, heq⟩ := expSinceLast_eq h h0 (lastReportSeqMax_eq h h0)
    have hext := extendedMax_eq h h0
    have hcumulative := h.cumulative
    rw [getStatistics, if_neg hsome, if_neg (by simp)]
    unfold calculateRtcpStatistics
    dsimp only
    generalize hlast : (if s.lastReportInorderPackets = 0 then s.receivedSeqFirst - 1
      else s.lastReportSeqMax) = last at hle heq ⊢
    generalize hexp : (if last > s.receivedSeqMax then 0 else s.receivedSeqMax - last) = exp at hle heq ⊢
    rw [hrec]
    have hmissing : (if exp.toNat > t.packets - t.reportedPackets then
        exp.toNat - (t.packets - t.reportedPackets) else 0) = t.lost := by
      have hlost : t.lost = t.expected - (t.packets - t.reportedPackets) := rfl
      rcases hloss with hnone | hcycle
      · split <;> omega
      · have hexact := heq hcycle
        split <;> omega
    rw [hmissing]
    have hexpected : t.expected = t.span - t.reportedSpan := rfl
    have hlost : t.lost = t.expected - (t.packets - t.reportedPackets) := rfl
    have hsum : (s.cumulativeLoss + UInt32.ofNat t.lost).toNat = t.span - t.packets := by
      rw [UInt32.toNat_add, hcumulative, UInt32.toNat_ofNat']
      omega
    have hfraction : (if exp ≠ 0 then UInt8.ofNat (255 * t.lost / exp.toNat) else 0).toNat =
        if t.expected = 0 then 0 else 255 * t.lost / t.expected := by
      rcases hloss with hnone | hcycle
      · rw [hnone]
        simp
      · have hexact := heq hcycle
        have hzero : exp = 0 ↔ t.expected = 0 := by
          rw [← hexact, ← UInt16.toNat_inj]
          rfl
        by_cases he : t.expected = 0
        · rw [if_neg (not_not.2 (hzero.2 he)), if_pos he]
          rfl
        · have hdiv : 255 * t.lost / t.expected < 256 := by
            rw [Nat.div_lt_iff_lt_mul (Nat.pos_of_ne_zero he)]
            omega
          rw [if_pos (fun hz => he (hzero.1 hz)), if_neg he, hexact, UInt8.toNat_ofNat', Nat.mod_eq_of_lt hdiv]
    constructor
    · constructor
      case packets => exact h.packets
      case retransmitted => exact h.retransmitted
      case fresh => exact fun hno => absurd hno h0
      case first => exact h.first
      case newest => exact h.newest
      case number => exact h.number
      case wraps => exact h.wraps
      case counts => exact hcounts
      case since =>
        show t.packets ≤ t.packets ∧ t.packets ≤ t.span ∧ t.span + t.packets ≤ t.span + t.packets
        omega
      case none => exact fun hno => absurd hno h0
      case reported =>
        show (s.transmitted.packets - s.retransmitted.packets).toNat = t.packets
        rw [h.retransmitted, UInt32.sub_zero, h.packets]
      case reportedOld => exact h.retransmitted
      case reportedMax =>
        intro _
        show s.receivedSeqMax.toNat = (t.first.toNat + t.span + 65535) % 65536
        exact receivedSeqMax_eq h h0
      case cumulative => exact hsum
    · rw [Truth.lossReport, if_neg h0, Option.map_some, lossReportOf]
      simp only [hsum, hfraction, hext]

/-! ## Every report -/

variable (convertNTPTimeToRTP)

theorem statisticsStep_tracks (p : StreamStatistician × Truth) (e : Event) (h : Tracks p.1 p.2)
    (hin : GoesUp p e ∧ Clean p e) :
    Tracks (statisticsStep convertNTPTimeToRTP p e).1.1 (statisticsStep convertNTPTimeToRTP p e).1.2 ∧
      (statisticsStep convertNTPTimeToRTP p e).2.1 = (statisticsStep convertNTPTimeToRTP p e).2.2 := by
  obtain ⟨hup, hclean⟩ := hin
  cases e with
  | packet a => exact ⟨tracks_packet h hup hclean, rfl⟩
  | report => exact tracks_report h hclean

/-- The same events, with `c` added to all numbers. -/
def Event.shift (c : UInt16) : Event → Event
  | .packet a => .packet { a with header := { a.header with sequenceNumber := a.header.sequenceNumber + c } }
  | .report => .report

/-- Shifted numbers, the same counts. -/
def Shifted (c : UInt16) (p q : StreamStatistician × Truth) : Prop :=
  q.2.span = p.2.span ∧ q.2.packets = p.2.packets ∧ q.2.reportedSpan = p.2.reportedSpan ∧
    q.2.reportedPackets = p.2.reportedPackets ∧
    (p.2.packets ≠ 0 → q.2.newest = p.2.newest + c)

/-- The two fields that do not depend on the first number. -/
def losses (r : LossReport) : Nat × Nat := (r.fractionLost, r.cumulativeLost)

theorem shifted_gap {c : UInt16} {p q : StreamStatistician × Truth} (h : Shifted c p q)
    (h0 : p.2.packets ≠ 0) (seq : UInt16) :
    q.2.gap (seq + c) = p.2.gap seq := by
  have hsub : seq + c - (p.2.newest + c) = seq - p.2.newest := by
    apply UInt16.toNat_inj.1
    have h1 := seq.toNat_lt
    have h2 := c.toNat_lt
    have h3 := p.2.newest.toNat_lt
    simp only [UInt16.toNat_sub, UInt16.toNat_add]
    omega
  rw [Truth.gap, Truth.gap, h.2.2.2.2 h0, hsub]

theorem shifted_step {c : UInt16} {p q : StreamStatistician × Truth} (h : Shifted c p q) (e : Event) :
    Shifted c (statisticsStep convertNTPTimeToRTP p e).1 (statisticsStep convertNTPTimeToRTP q (e.shift c)).1 ∧
      ((statisticsStep convertNTPTimeToRTP p e).2.2.map losses =
        (statisticsStep convertNTPTimeToRTP q (e.shift c)).2.2.map losses) ∧
      (GoesUp p e → GoesUp q (e.shift c)) := by
  obtain ⟨hspan, hpackets, hreportedSpan, hreportedPackets, hnewest⟩ := id h
  cases e with
  | packet a =>
    refine ⟨?_, rfl, ?_⟩
    · show Shifted c (_, p.2.receive a.header.sequenceNumber) (_, q.2.receive (a.header.sequenceNumber + c))
      unfold Shifted Truth.receive
      by_cases h0 : p.2.packets = 0
      · rw [if_pos h0, if_pos (hpackets.trans h0)]
        exact ⟨rfl, rfl, hreportedSpan, hreportedPackets, fun _ => rfl⟩
      · rw [if_neg h0, if_neg (fun hq => h0 (hpackets.symm.trans hq)), shifted_gap h h0]
        refine ⟨?_, ?_, hreportedSpan, hreportedPackets, fun _ => rfl⟩
        · show q.2.span + _ = p.2.span + _
          rw [hspan]
        · show q.2.packets + 1 = p.2.packets + 1
          rw [hpackets]
    · intro hup hq
      have h0 : p.2.packets ≠ 0 := hpackets ▸ hq
      show 0 < q.2.gap (a.header.sequenceNumber + c) ∧ q.2.gap (a.header.sequenceNumber + c) < 0x8000
      rw [shifted_gap h h0]
      exact hup h0
  | report =>
    refine ⟨⟨hspan, hpackets, hspan, hpackets, hnewest⟩, ?_, fun _ => trivial⟩
    show p.2.lossReport.map losses = q.2.lossReport.map losses
    unfold Truth.lossReport Truth.lost Truth.expected
    rw [hspan, hpackets, hreportedSpan, hreportedPackets]

/-- **Every report is right**, and what it has of losses is the same wherever the numbers begin: in the
runs that are clean. -/
theorem reports_exact (events : List Event)
    (hup : Machine.Meets (statisticsStep convertNTPTimeToRTP) GoesUp (create, .start) events)
    (hclean : Machine.Meets (statisticsStep convertNTPTimeToRTP) Clean (create, .start) events) :
    (∀ o ∈ Machine.trace (statisticsStep convertNTPTimeToRTP) (create, .start) events, o.1 = o.2) ∧
    ∀ c : UInt16, Machine.Meets (statisticsStep convertNTPTimeToRTP) Clean (create, .start)
      (events.map (Event.shift c)) →
      (Machine.trace (statisticsStep convertNTPTimeToRTP) (create, .start)
        (events.map (Event.shift c))).map (fun o => o.1.map losses) =
        (Machine.trace (statisticsStep convertNTPTimeToRTP) (create, .start) events).map fun o => o.1.map losses := by
  have hexact : ∀ events, Machine.Meets (statisticsStep convertNTPTimeToRTP) GoesUp (create, .start) events →
      Machine.Meets (statisticsStep convertNTPTimeToRTP) Clean (create, .start) events →
      ∀ o ∈ Machine.trace (statisticsStep convertNTPTimeToRTP) (create, .start) events, o.1 = o.2 :=
          fun events hup hclean =>
    Machine.trace_of_meets (fun p e h hin =>
      statisticsStep_tracks convertNTPTimeToRTP p e h hin) tracks_create (hup.and hclean)
  refine ⟨hexact events hup hclean, fun c hclean' => ?_⟩
  have hstart : Shifted c (create, .start) (create, .start) := ⟨rfl, rfl, rfl, rfl, fun hno => absurd rfl hno⟩
  have hup' : Machine.Meets (statisticsStep convertNTPTimeToRTP) GoesUp (create, .start)
      (events.map (Event.shift c)) := by
    rw [Machine.meets_map]
    refine Machine.meets_of_sim (fun p q e h => ?_) hstart hup
    exact ⟨(shifted_step convertNTPTimeToRTP h e).1, (shifted_step convertNTPTimeToRTP h e).2.2⟩
  have htrue : (Machine.trace (statisticsStep convertNTPTimeToRTP) (create, .start) events).map
    (fun o => o.2.map losses) =
      (Machine.trace (statisticsStep convertNTPTimeToRTP) (create, .start)
          (events.map (Event.shift c))).map fun o => o.2.map losses := by
    rw [Machine.trace_map]
    refine Machine.trace_map_eq_of_sim (fun p q e h => ?_) hstart events
    exact ⟨(shifted_step convertNTPTimeToRTP h e).1, (shifted_step convertNTPTimeToRTP h e).2.1⟩
  rw [List.map_congr_left fun o ho => by rw [hexact _ hup' hclean' o ho], ← htrue]
  exact List.map_congr_left fun o ho => by rw [hexact _ hup hclean o ho]

end Runs

/-- A packet with this number and 100 bytes of payload. -/
def numbered (sequenceNumber : UInt16) : Arrival where
  header := { RTPHeader.empty with sequenceNumber, headerLength := 12, payloadTypeFrequency := 90000 }
  packetLength := 112
  retransmitted := false
  timeMs := 1
  ntpSecs := 0
  ntpFrac := 0

/-- Samples of a clock without fraction. -/
def wholeSeconds (secs _frac : UInt32) (freq : Int) : UInt32 := UInt32.ofNat (secs.toNat * freq.toNat)

theorem reports_exact_gap : (Machine.trace (statisticsStep wholeSeconds) (create, .start)
    [.packet (numbered 7), .packet (numbered 10), .report]).all (fun o => decide (o.1 = o.2)) = true := by
  rw [List.all_eq_true]
  intro o ho
  have hexact := reports_exact wholeSeconds [.packet (numbered 7), .packet (numbered 10), .report]
    ⟨fun hno => absurd rfl hno, fun _ => ⟨by decide, by decide⟩, trivial, trivial⟩
    ⟨show 1 < 4294967296 by decide, show 4 < 4294967296 by decide, fun _ => ⟨Or.inl (by decide),
      Or.inr (by decide)⟩, trivial⟩
  exact decide_eq_true (hexact.1 o ho)

/-- Of two numbers skipped where they wrap the report has nothing. -/
theorem wrap_not_counted : ¬ ∀ events, Machine.Meets (statisticsStep wholeSeconds) GoesUp (create, .start) events →
    ∀ o ∈ Machine.trace (statisticsStep wholeSeconds) (create, .start) events, o.1 = o.2 := by
  intro h
  have hrun := h [.packet (numbered 65534), .packet (numbered 1), .report]
    ⟨fun hno => absurd rfl hno, fun _ => ⟨by decide, by decide⟩, trivial, trivial⟩ (some ⟨0, 0, 3⟩,
      some ⟨127, 2, 3⟩) (by decide)
  exact absurd hrun (by decide)

end WebRtc.Rtp
