import Mathlib.Algebra.Order.BigOperators.Group.List
import Mathlib.Tactic.Ring
import WebRtc.Lib.Machine
import WebRtc.Pacing.PacedSender

/-!
# The accounts of the packet queue

`Exact` says what the fields of a `PacketQueue` count while some of its packets are being sent: these
are in the list and not in the heap. Every method keeps it (`push_exact` to `finalizePop_exact`), and
where it holds no `RTC_DCHECK` fails. A `System` is a pacer, the place of the thread that is in
`Process`, and two lists that the code does not have: the packets that were inserted and were no
duplicates, and those sent. Its steps are what happens between one release of the lock and the next, in
any order that the callbacks of `Process` allow.
-/

namespace WebRtc.Pacing

/-! ## The queue -/

def totalBytes (packets : List Packet) : Nat := (packets.map fun packet => packet.bytes.toNat).sum

/-- How long the packets have waited, all together. -/
def waited (nowMs : Int) (packets : List Packet) : Int := (packets.map fun packet => nowMs - packet.enqueueTimeMs).sum

/-- What makes one packet a duplicate of another. -/
def SamePair (first second : Packet) : Prop := first.ssrc = second.ssrc ∧ first.sequenceNumber = second.sequenceNumber

instance (first second : Packet) : Decidable (SamePair first second) := inferInstanceAs (Decidable (_ ∧ _))

structure Exact (q : PacketQueue) (inFlight : List Packet) : Prop where
  bytes : q.bytes = UInt64.ofNat (totalBytes q.packetList)
  queueTimeSum : q.queueTimeSum = waited q.timeLastUpdated q.packetList
  dupeMap : ∀ ssrc sequenceNumber, InDupeMap q.dupeMap ssrc sequenceNumber ↔
    ∃ packet ∈ q.packetList, packet.ssrc = ssrc ∧ packet.sequenceNumber = sequenceNumber
  heap : (inFlight ++ q.prioQueue).Perm q.packetList
  distinct : q.packetList.Pairwise fun first second => ¬ SamePair first second
  enqueued : ∀ packet ∈ q.packetList, packet.enqueueTimeMs ≤ q.timeLastUpdated

theorem waited_later (nowMs laterMs : Int) (packets : List Packet) :
    waited laterMs packets = waited nowMs packets + (laterMs - nowMs) * packets.length := by
  induction packets with
  | nil => simp [waited]
  | cons packet packets ih =>
    simp only [waited, List.map_cons, List.sum_cons, List.length_cons] at ih ⊢
    rw [ih]
    push_cast
    ring

theorem waited_erase {packets : List Packet} {packet : Packet} (nowMs : Int) (h : packet ∈ packets) :
    waited nowMs (packets.erase packet) = waited nowMs packets - (nowMs - packet.enqueueTimeMs) := by
  have hsum := List.sum_map_erase (fun packet : Packet => nowMs - packet.enqueueTimeMs) h
  unfold waited
  omega

theorem totalBytes_erase {packets : List Packet} {packet : Packet} (h : packet ∈ packets) :
    packet.bytes.toNat + totalBytes (packets.erase packet) = totalBytes packets :=
  List.sum_map_erase (fun packet : Packet => packet.bytes.toNat) h

section Queue
variable {heap : PriorityQueue Packet} {q : PacketQueue} {inFlight : List Packet}

theorem create_exact (nowMs : Int) : Exact (PacketQueue.create nowMs) [] where
  bytes := rfl
  queueTimeSum := rfl
  dupeMap := by simp [PacketQueue.create, InDupeMap]
  heap := List.Perm.refl _
  distinct := List.Pairwise.nil
  enqueued := by simp [PacketQueue.create]

theorem updateQueueTime_exact (h : Exact q inFlight) {timestampMs : Int} (hlater : q.timeLastUpdated ≤ timestampMs) :
    ∃ q', q.updateQueueTime timestampMs = some q' ∧ Exact q' inFlight ∧
      q'.packetList = q.packetList ∧ q'.prioQueue = q.prioQueue ∧
      q'.dupeMap = q.dupeMap ∧ q'.bytes = q.bytes ∧ q'.timeLastUpdated = timestampMs := by
  refine ⟨_, if_pos hlater, ⟨h.bytes, ?_, h.dupeMap, h.heap, h.distinct, ?_⟩, rfl, rfl, rfl, rfl, rfl⟩
  · simp only
    rw [waited_later q.timeLastUpdated, h.queueTimeSum]
  · intro packet hmem
    exact le_trans (h.enqueued packet hmem) hlater

/-- The map of a queue of which only the map was touched, without effect. -/
theorem Exact.withDupeMap (h : Exact q inFlight) {dupeMap : DupeMap}
    (hsame : ∀ ssrc sequenceNumber, InDupeMap dupeMap ssrc sequenceNumber ↔ InDupeMap q.dupeMap ssrc sequenceNumber) :
    Exact { q with dupeMap := dupeMap } inFlight :=
  ⟨h.bytes, h.queueTimeSum, fun ssrc sequenceNumber => (hsame ssrc sequenceNumber).trans
    (h.dupeMap ssrc sequenceNumber), h.heap,
    h.distinct, h.enqueued⟩

theorem push_exact_duplicate (heap : PriorityQueue Packet) (h : Exact q inFlight) {packet : Packet}
    (hdup : ∃ listed ∈ q.packetList, SamePair listed packet) :
    ∃ q', q.push heap packet = some q' ∧ Exact q' inFlight ∧ q'.packetList = q.packetList ∧
        q'.timeLastUpdated = q.timeLastUpdated := by
  have hin : InDupeMap q.dupeMap packet.ssrc packet.sequenceNumber := (h.dupeMap _ _).mpr hdup
  have hnot : (addToDupeSet q.dupeMap packet).2 = false := by
    rw [Bool.eq_false_iff]
    intro hadded
    exact (addToDupeSet_added _ _).mp hadded hin
  refine ⟨{ q with dupeMap := (addToDupeSet q.dupeMap packet).1 }, ?_, h.withDupeMap ?_, rfl, rfl⟩
  · simp only [PacketQueue.push, hnot, Bool.not_false, if_true]
  · intro ssrc sequenceNumber
    rw [inDupeMap_addToDupeSet]
    constructor
    · rintro (⟨rfl, rfl⟩ | hold)
      · exact hin
      · exact hold
    · exact Or.inr

theorem push_exact_new (heap : PriorityQueue Packet) (h : Exact q inFlight) {packet : Packet}
    (hnew : ¬ ∃ listed ∈ q.packetList, SamePair listed packet) (hlater : q.timeLastUpdated ≤ packet.enqueueTimeMs) :
    ∃ q', q.push heap packet = some q' ∧ Exact q' inFlight ∧ q'.packetList = packet :: q.packetList ∧
      q'.timeLastUpdated = packet.enqueueTimeMs := by
  have hadded : (addToDupeSet q.dupeMap packet).2 = true := by
    rw [addToDupeSet_added, h.dupeMap]
    exact hnew
  -- The time is counted before the packet is in the list, so for it nothing is.
  have hsum : q.queueTimeSum + (packet.enqueueTimeMs - q.timeLastUpdated) * q.packetList.length =
      waited packet.enqueueTimeMs (packet :: q.packetList) := by
    rw [waited, List.map_cons, List.sum_cons, sub_self, zero_add, ← waited,
      waited_later q.timeLastUpdated, h.queueTimeSum]
  refine ⟨{
    packetList := packet :: q.packetList
    prioQueue := heap.push q.prioQueue packet
    bytes := q.bytes + packet.bytes
    dupeMap := (addToDupeSet q.dupeMap packet).1
    queueTimeSum := q.queueTimeSum + (packet.enqueueTimeMs - q.timeLastUpdated) * q.packetList.length
    timeLastUpdated := packet.enqueueTimeMs }, ?_, ⟨?_, hsum, ?_, ?_, ?_, ?_⟩, rfl, rfl⟩
  · simp only [PacketQueue.push, hadded, PacketQueue.updateQueueTime, ge_iff_le, hlater,
      Bool.not_true, Bool.false_eq_true, if_true,
      if_false, Option.map_some]
  · simp only [totalBytes, List.map_cons, List.sum_cons, UInt64.ofNat_add, UInt64.ofNat_toNat]
    rw [h.bytes, totalBytes, UInt64.add_comm]
  · intro ssrc sequenceNumber
    rw [inDupeMap_addToDupeSet, h.dupeMap]
    simp only [List.exists_mem_cons_iff, eq_comm]
  · have hpush := heap.push_perm q.prioQueue packet
    exact (hpush.append_left inFlight).trans (List.perm_middle.trans (h.heap.cons packet))
  · rw [List.pairwise_cons]
    refine ⟨?_, h.distinct⟩
    intro listed hlisted hsame
    exact hnew ⟨listed, hlisted, hsame.1.symm, hsame.2.symm⟩
  · intro listed hlisted
    rcases List.mem_cons.mp hlisted with rfl | hold
    · exact le_refl _
    · exact le_trans (h.enqueued listed hold) hlater

theorem beginPop_exact (h : Exact q []) {packet : Packet} {q' : PacketQueue}
    (hpop : q.beginPop heap = some (packet, q')) :
    Exact q' [packet] ∧ q'.packetList = q.packetList ∧ q'.timeLastUpdated = q.timeLastUpdated := by
  unfold PacketQueue.beginPop at hpop
  obtain ⟨top, htop, heq⟩ := Option.map_eq_some_iff.mp hpop
  cases heq
  refine ⟨⟨h.bytes, h.queueTimeSum, h.dupeMap, ?_, h.distinct, h.enqueued⟩, rfl, rfl⟩
  exact (heap.pop_perm q.prioQueue packet htop).trans h.heap

theorem cancelPop_exact {packet : Packet} (h : Exact q [packet]) : Exact (q.cancelPop heap packet) [] :=
  ⟨h.bytes, h.queueTimeSum, h.dupeMap, (heap.push_perm q.prioQueue packet).trans h.heap, h.distinct, h.enqueued⟩

/-- **The packet is gone from all the accounts, and no check fails.** -/
theorem finalizePop_exact {packet : Packet} (h : Exact q [packet]) :
    ∃ q', q.finalizePop packet = some q' ∧ Exact q' [] ∧ q'.packetList = q.packetList.erase packet ∧
      q'.timeLastUpdated = q.timeLastUpdated := by
  have hmem : packet ∈ q.packetList := h.heap.subset (List.mem_append_left _ List.mem_cons_self)
  obtain ⟨left, hremoved, hleft⟩ := removeFromDupeSet_spec ((h.dupeMap _ _).mpr ⟨packet, hmem, rfl, rfl⟩)
  have hsum : q.queueTimeSum - (q.timeLastUpdated - packet.enqueueTimeMs) =
      waited q.timeLastUpdated (q.packetList.erase packet) := by
    rw [waited_erase _ hmem, h.queueTimeSum]
  have hheap : q.prioQueue.Perm (q.packetList.erase packet) :=
    (h.heap.trans (List.perm_cons_erase hmem)).cons_inv
  have hexact : Exact
      { q with
        dupeMap := left
        bytes := q.bytes - packet.bytes
        queueTimeSum := q.queueTimeSum - (q.timeLastUpdated - packet.enqueueTimeMs)
        packetList := q.packetList.erase packet } [] := by
    refine ⟨?_, hsum, ?_, hheap, h.distinct.sublist List.erase_sublist, ?_⟩
    · simp only
      rw [h.bytes, ← totalBytes_erase hmem, UInt64.ofNat_add, UInt64.ofNat_toNat, UInt64.add_comm,
        UInt64.add_sub_cancel]
    · intro ssrc sequenceNumber
      rw [hleft, h.dupeMap]
      constructor
      · rintro ⟨⟨listed, hlisted, rfl, rfl⟩, hne⟩
        have hother : listed ≠ packet := by
          rintro rfl
          exact hne ⟨rfl, rfl⟩
        exact ⟨listed, (List.mem_erase_of_ne hother).mpr hlisted, rfl, rfl⟩
      · rintro ⟨listed, hlisted, rfl, rfl⟩
        refine ⟨⟨listed, List.mem_of_mem_erase hlisted, rfl, rfl⟩, ?_⟩
        -- No other packet of the list has the pair of this one.
        have hpair := (List.perm_cons_erase hmem).pairwise_iff (fun h hsame =>
          h ⟨hsame.1.symm, hsame.2.symm⟩) |>.mp h.distinct
        intro hsame
        exact (List.pairwise_cons.mp hpair).1 listed hlisted ⟨hsame.1.symm, hsame.2.symm⟩
    · intro listed hlisted
      exact h.enqueued listed (List.mem_of_mem_erase hlisted)
  have hsize : (q.packetList.erase packet).length = q.prioQueue.length := hheap.length_eq.symm
  refine ⟨_, ?_, hexact, rfl, rfl⟩
  unfold PacketQueue.finalizePop
  rw [hremoved]
  simp only [Option.bind_eq_bind, Option.bind_some, hsize, ne_eq, not_true_eq_false, if_false]
  rw [if_neg]
  rintro ⟨hempty, hsumNe⟩
  apply hsumNe
  rw [hsum, List.isEmpty_iff.mp hempty]
  rfl

end Queue

/-! ## The system -/

/-- The packet that is in the list and not in the heap. -/
def Processing.inFlight : Processing → List Packet
  | idle => []
  | sendPacket packet => [packet]
  | sendPadding _ => []

structure System where
  pacer : PacedSender
  processing : Processing
  /-- The last reading of the clock, in milliseconds. -/
  clockMs : Int
  accepted : List Packet
  sent : List Packet

inductive Action where
  | insertPacket (priority : Priority) (ssrc : UInt32) (sequenceNumber : UInt16) (captureTimeMs : Int) (bytes : UInt64)
      (retransmission : Bool) (nowMs : Int)
  | averageQueueTimeMs (nowMs : Int)
  | queueInMs (nowMs : Int)
  | queueSizePackets
  | expectedQueueTimeMs
  | timeUntilNextProcess (nowUs nowMs : Int)
  | pause
  | resume
  | updateBitrate (bitrateKbps maxBitrateKbps minBitrateKbps : Int)
  /-- `Process` is called. -/
  | process (nowUs nowMs : Int)
  /-- `TimeToSendPacket` returns. -/
  | packetSent (success : Bool) (nowMs : Int)
  /-- `TimeToSendPadding` returns. -/
  | paddingSent (bytes : UInt64) (nowMs : Int)

namespace System

def start (nowUs nowMs : Int) (probingEnabled : Bool) (bitrateKbps maxBitrateKbps minBitrateKbps : Int) : System where
  pacer := .create nowUs nowMs probingEnabled bitrateKbps maxBitrateKbps minBitrateKbps
  processing := .idle
  clockMs := nowMs
  accepted := []
  sent := []

/-- The next state and what is returned: nothing where a check of the queue fails. -/
def step (heap : PriorityQueue Packet) (product : Int → Int → Int) (s : System) : Action → System × Option Int
  | .insertPacket priority ssrc sequenceNumber captureTimeMs bytes retransmission nowMs =>
    let packet := s.pacer.newPacket priority ssrc sequenceNumber captureTimeMs bytes retransmission nowMs
    let duplicate := s.pacer.packets.packetList.any fun listed => SamePair listed packet
    match s.pacer.insertPacket heap product priority ssrc sequenceNumber captureTimeMs bytes retransmission nowMs with
    | none => (s, none)
    | some pacer =>
      ({ s with
        pacer := pacer
        clockMs := nowMs
        accepted := if duplicate then s.accepted else packet :: s.accepted }, some 0)
  | .averageQueueTimeMs nowMs =>
    match s.pacer.averageQueueTimeMs nowMs with
    | none => (s, none)
    | some (average, pacer) => ({ s with pacer := pacer, clockMs := nowMs }, some average)
  | .queueInMs nowMs => ({ s with clockMs := nowMs }, some (s.pacer.queueInMs nowMs))
  | .queueSizePackets => (s, some s.pacer.queueSizePackets)
  | .expectedQueueTimeMs => (s, some s.pacer.expectedQueueTimeMs)
  | .timeUntilNextProcess nowUs nowMs =>
    let (time, pacer) := s.pacer.timeUntilNextProcess nowUs nowMs
    ({ s with pacer := pacer, clockMs := nowMs }, some time)
  | .pause => ({ s with pacer := s.pacer.pause }, some 0)
  | .resume => ({ s with pacer := s.pacer.resume }, some 0)
  | .updateBitrate bitrateKbps maxBitrateKbps minBitrateKbps =>
    ({ s with pacer := s.pacer.updateBitrate bitrateKbps maxBitrateKbps minBitrateKbps }, some 0)
  | .process nowUs nowMs =>
    match s.processing with
    | .idle =>
      match s.pacer.process heap nowUs nowMs with
      | none => (s, none)
      | some (processing, pacer) => ({ s with pacer := pacer, processing := processing, clockMs := nowMs }, some 0)
    | _ => (s, some 0)
  | .packetSent success nowMs =>
    match s.processing with
    | .sendPacket packet =>
      match s.pacer.packetSent heap packet success nowMs with
      | none => (s, none)
      | some (processing, pacer) =>
        ({ s with
          pacer := pacer, processing := processing, clockMs := nowMs, sent :=
            if success then packet :: s.sent else s.sent }, some 0)
    | _ => (s, some 0)
  | .paddingSent bytes nowMs =>
    match s.processing with
    | .sendPadding _ =>
      ({ s with pacer := s.pacer.paddingSent bytes nowMs, processing := .idle, clockMs := nowMs }, some 0)
    | _ => (s, some 0)

/-- The clock does not go back, one thread is in `Process`, and a callback returns after it was called. -/
def Allowed (s : System) : Action → Prop
  | .insertPacket _ _ _ _ _ _ nowMs => s.clockMs ≤ nowMs
  | .averageQueueTimeMs nowMs => s.clockMs ≤ nowMs
  | .queueInMs nowMs => s.clockMs ≤ nowMs
  | .queueSizePackets => True
  | .expectedQueueTimeMs => True
  | .timeUntilNextProcess _ nowMs => s.clockMs ≤ nowMs
  | .pause => True
  | .resume => True
  | .updateBitrate _ _ _ => True
  | .process _ nowMs => s.processing = .idle ∧ s.clockMs ≤ nowMs
  | .packetSent _ nowMs => (∃ packet, s.processing = .sendPacket packet) ∧ s.clockMs ≤ nowMs
  | .paddingSent _ nowMs => (∃ paddingNeeded, s.processing = .sendPadding paddingNeeded) ∧ s.clockMs ≤ nowMs

/-- The accounts are exact, and every packet that was accepted is sent, once, or in the list. -/
structure Accounted (s : System) : Prop where
  queue : Exact s.pacer.packets s.processing.inFlight
  packets : s.accepted.Perm (s.sent ++ s.pacer.packets.packetList)
  clock : s.pacer.packets.timeLastUpdated ≤ s.clockMs

end System

section Pacer
variable {s : PacedSender}

theorem sendPadding_inFlight (s : PacedSender) : s.sendPadding.inFlight = [] := by
  unfold PacedSender.sendPadding
  dsimp only
  split <;> split <;> rfl

theorem sendLoop_exact (heap : PriorityQueue Packet) {packets : PacketQueue}
    (hs : s.packets = packets) (h : Exact packets []) :
    Exact (s.sendLoop heap).2.packets (s.sendLoop heap).1.inFlight ∧
      (s.sendLoop heap).2.packets.packetList = packets.packetList ∧
      (s.sendLoop heap).2.packets.timeLastUpdated = packets.timeLastUpdated := by
  subst hs
  unfold PacedSender.sendLoop
  split
  · rw [sendPadding_inFlight]
    exact ⟨h, rfl, rfl⟩
  split
  · exact ⟨h, rfl, rfl⟩
  split
  · exact ⟨h, rfl, rfl⟩
  · rename_i packet packets hpop
    exact beginPop_exact h hpop

/-- The first part of `Process`. -/
theorem process_exact (heap : PriorityQueue Packet) (h : Exact s.packets []) (nowUs : Int) {nowMs : Int}
    (hlater : s.packets.timeLastUpdated ≤ nowMs) :
    ∃ processing s', s.process heap nowUs nowMs = some (processing, s') ∧ Exact s'.packets processing.inFlight ∧
      s'.packets.packetList = s.packets.packetList ∧ s'.packets.timeLastUpdated ≤ nowMs := by
  unfold PacedSender.process
  dsimp only
  split
  · exact ⟨_, _, rfl, h, rfl, hlater⟩
  split
  · obtain ⟨packets, hcounted, hexact, hlist, hupdated⟩ : ∃ packets,
        (if s.packets.sizeInBytes > 0 then s.packets.updateQueueTime nowMs else some s.packets) = some packets ∧
          Exact packets [] ∧ packets.packetList = s.packets.packetList ∧ packets.timeLastUpdated ≤ nowMs := by
      split
      · obtain ⟨packets, hsome, hexact, hlist, _, _, _, hupdated⟩ := updateQueueTime_exact h hlater
        exact ⟨packets, hsome, hexact, hlist, le_of_eq hupdated⟩
      · exact ⟨_, rfl, h, rfl, hlater⟩
    rw [hcounted, Option.map_some]
    refine ⟨_, _, rfl, (sendLoop_exact heap rfl hexact).1, ?_, ?_⟩
    · exact (sendLoop_exact heap rfl hexact).2.1.trans hlist
    · exact (sendLoop_exact heap rfl hexact).2.2.trans_le hupdated
  · have hloop := sendLoop_exact heap (s := { s with timeLastUpdateUs := nowUs }) rfl h
    exact ⟨_, _, rfl, hloop.1, hloop.2.1, hloop.2.2.trans_le hlater⟩

theorem packetSent_exact (heap : PriorityQueue Packet) {packet : Packet}
    (h : Exact s.packets [packet]) (success : Bool) (nowMs : Int) :
    ∃ processing s', s.packetSent heap packet success nowMs = some (processing, s') ∧
      Exact s'.packets processing.inFlight ∧
      s'.packets.packetList = (if success then s.packets.packetList.erase packet else s.packets.packetList) ∧
      s'.packets.timeLastUpdated = s.packets.timeLastUpdated := by
  cases success with
  | false => exact ⟨_, _, rfl, cancelPop_exact h, rfl, rfl⟩
  | true =>
    obtain ⟨packets, hfinal, hexact, hlist, hupdated⟩ := finalizePop_exact h
    have hsame : (s.bytesSent nowMs packet.bytes).packets = s.packets := rfl
    unfold PacedSender.packetSent
    simp only [if_true, hsame, hfinal, Option.map_some]
    split
    · exact ⟨_, _, rfl, hexact, hlist, hupdated⟩
    · have hloop := sendLoop_exact heap (s := { s.bytesSent nowMs packet.bytes with packets := packets }) rfl hexact
      exact ⟨_, _, rfl, hloop.1, hloop.2.1.trans hlist, hloop.2.2.trans hupdated⟩

end Pacer

namespace System

variable {heap : PriorityQueue Packet} {product : Int → Int → Int} {s : System}

theorem start_accounted (nowUs nowMs : Int) (probingEnabled : Bool) (bitrateKbps maxBitrateKbps minBitrateKbps : Int) :
    (start nowUs nowMs probingEnabled bitrateKbps maxBitrateKbps minBitrateKbps).Accounted where
  queue := create_exact nowMs
  packets := List.Perm.refl _
  clock := le_refl _

/-- Insertion, with any packet in flight. -/
theorem insertPacket_accounted (h : s.Accounted) (priority : Priority) (ssrc : UInt32)
    (sequenceNumber : UInt16) (captureTimeMs : Int)
    (bytes : UInt64) (retransmission : Bool) {nowMs : Int} (hlater : s.clockMs ≤ nowMs) :
    (s.step heap product (.insertPacket priority ssrc sequenceNumber captureTimeMs bytes retransmission
      nowMs)).1.Accounted ∧
      (s.step heap product (.insertPacket priority ssrc sequenceNumber captureTimeMs bytes retransmission nowMs)).2 ≠
        none := by
  simp only [step, PacedSender.insertPacket]
  generalize hp : s.pacer.newPacket priority ssrc sequenceNumber captureTimeMs bytes retransmission nowMs = packet
  have htime : packet.enqueueTimeMs = nowMs := by
    rw [← hp]
    rfl
  by_cases hdup : ∃ listed ∈ s.pacer.packets.packetList, SamePair listed packet
  · obtain ⟨packets, hpush, hexact, hlist, hupdated⟩ := push_exact_duplicate heap h.queue hdup
    have hany : s.pacer.packets.packetList.any (fun listed => SamePair listed packet) = true := by
      simpa using hdup
    rw [hpush, hany, Option.map_some]
    refine ⟨⟨hexact, ?_, ?_⟩, by simp⟩
    · simp only [if_true]
      rw [hlist]
      exact h.packets
    · exact (le_of_eq hupdated).trans (h.clock.trans hlater)
  · obtain ⟨packets, hpush, hexact, hlist, hupdated⟩ := push_exact_new heap h.queue hdup
      (by rw [htime]; exact h.clock.trans hlater)
    have hany : s.pacer.packets.packetList.any (fun listed => SamePair listed packet) = false := by
      rw [Bool.eq_false_iff]
      simpa using hdup
    rw [hpush, hany, Option.map_some]
    refine ⟨⟨hexact, ?_, ?_⟩, by simp⟩
    · simp only [Bool.false_eq_true, if_false]
      rw [hlist]
      exact (h.packets.cons packet).trans List.perm_middle.symm
    · exact le_of_eq (hupdated.trans htime)

/-- **Step lemma.** -/
theorem step_accounted (h : s.Accounted) {a : Action} (ha : s.Allowed a) :
    (s.step heap product a).1.Accounted ∧ (s.step heap product a).2 ≠ none := by
  cases a with
  | insertPacket priority ssrc sequenceNumber captureTimeMs bytes retransmission nowMs =>
    exact insertPacket_accounted h priority ssrc sequenceNumber captureTimeMs bytes retransmission ha
  | averageQueueTimeMs nowMs =>
    obtain ⟨packets, hsome, hexact, hlist, _, _, _, hupdated⟩ := updateQueueTime_exact h.queue (h.clock.trans ha)
    simp only [step, PacedSender.averageQueueTimeMs, hsome, Option.map_some]
    refine ⟨⟨hexact, ?_, le_of_eq hupdated⟩, by simp⟩
    simp only
    rw [hlist]
    exact h.packets
  | queueInMs nowMs => exact ⟨⟨h.queue, h.packets, h.clock.trans ha⟩, by simp [step]⟩
  | queueSizePackets => exact ⟨h, by simp [step]⟩
  | expectedQueueTimeMs => exact ⟨h, by simp [step]⟩
  | timeUntilNextProcess nowUs nowMs =>
    have hpackets : (s.pacer.timeUntilNextProcess nowUs nowMs).2.packets = s.pacer.packets := by
      unfold PacedSender.timeUntilNextProcess
      dsimp only
      split_ifs <;> rfl
    refine ⟨⟨?_, ?_, ?_⟩, by simp [step]⟩
    · simp only [step, hpackets]
      exact h.queue
    · simp only [step, hpackets]
      exact h.packets
    · simp only [step, hpackets]
      exact h.clock.trans ha
  | pause => exact ⟨⟨h.queue, h.packets, h.clock⟩, by simp [step]⟩
  | resume => exact ⟨⟨h.queue, h.packets, h.clock⟩, by simp [step]⟩
  | updateBitrate bitrateKbps maxBitrateKbps minBitrateKbps => exact ⟨⟨h.queue, h.packets, h.clock⟩, by simp [step]⟩
  | process nowUs nowMs =>
    obtain ⟨hidle, hlater⟩ := ha
    have hqueue := h.queue
    rw [hidle] at hqueue
    obtain ⟨processing, pacer, hsome, hexact, hlist, hupdated⟩ :=
      process_exact heap hqueue nowUs (h.clock.trans hlater)
    simp only [step, hidle, hsome]
    refine ⟨⟨hexact, ?_, hupdated⟩, by simp⟩
    simp only
    rw [hlist]
    exact h.packets
  | packetSent success nowMs =>
    obtain ⟨⟨packet, hsending⟩, hlater⟩ := ha
    have hqueue := h.queue
    rw [hsending] at hqueue
    have hmem : packet ∈ s.pacer.packets.packetList := hqueue.heap.subset (List.mem_append_left _ List.mem_cons_self)
    obtain ⟨processing, pacer, hsome, hexact, hlist, hupdated⟩ := packetSent_exact heap hqueue success nowMs
    simp only [step, hsending, hsome]
    refine ⟨⟨hexact, ?_, ?_⟩, by simp⟩
    · simp only
      rw [hlist]
      cases success with
      | false => exact h.packets
      | true =>
        -- The packet goes from the list to those sent.
        have hmove : (s.sent ++ s.pacer.packets.packetList).Perm
            (s.sent ++ packet :: s.pacer.packets.packetList.erase packet) :=
          (List.perm_cons_erase hmem).append_left s.sent
        exact h.packets.trans (hmove.trans List.perm_middle)
    · exact (le_of_eq hupdated).trans (h.clock.trans hlater)
  | paddingSent bytes nowMs =>
    obtain ⟨⟨paddingNeeded, hsending⟩, hlater⟩ := ha
    have hqueue := h.queue
    rw [hsending] at hqueue
    have hpackets : (s.pacer.paddingSent bytes nowMs).packets = s.pacer.packets := by
      unfold PacedSender.paddingSent
      split <;> rfl
    simp only [step, hsending]
    refine ⟨⟨?_, ?_, ?_⟩, by simp⟩
    · simp only [hpackets]
      exact hqueue
    · simp only [hpackets]
      exact h.packets
    · simp only [hpackets]
      exact h.clock.trans hlater

/-- **The accounts of the queue are exact at every release of the lock**, and no check of the queue
fails, in every run. -/
theorem accounts_exact (heap : PriorityQueue Packet) (product : Int → Int → Int) (nowUs nowMs : Int)
    (probingEnabled : Bool)
    (bitrateKbps maxBitrateKbps minBitrateKbps : Int) {actions : List Action}
    (h : Machine.Meets (step heap product) Allowed
      (start nowUs nowMs probingEnabled bitrateKbps maxBitrateKbps minBitrateKbps) actions) :
    Machine.Always (step heap product) Accounted
        (start nowUs nowMs probingEnabled bitrateKbps maxBitrateKbps minBitrateKbps) actions ∧
      ∀ returned ∈ Machine.trace (step heap product)
        (start nowUs nowMs probingEnabled bitrateKbps maxBitrateKbps minBitrateKbps) actions, returned ≠ none := by
  have hstart := start_accounted nowUs nowMs probingEnabled bitrateKbps maxBitrateKbps minBitrateKbps
  exact ⟨Machine.always_of_meets (P := Accounted) (fun _ _ hs ha => (step_accounted hs ha).1) hstart h,
    Machine.trace_of_meets (P := Accounted) (Q := fun returned => returned ≠ none) (fun _ _ hs ha =>
      step_accounted hs ha) hstart h⟩

/-- Another packet comes, and one more time the first, while the first packet is sent; sending the other
one fails. -/
theorem accounts_exact_two :
    Machine.Always (step (PriorityQueue.ofLess comparator) fun multiplier bitrate => multiplier * bitrate) Accounted
      (start 0 0 false 500 500 0)
      [.insertPacket .normal 7 1 0 100 false 1, .process 10000 10, .insertPacket .normal 7 2 0 50 false 11,
        .insertPacket .normal 7 1 0 100 false 11, .averageQueueTimeMs 12, .packetSent true 13,
            .packetSent false 14] := by
  have hmeets : Machine.Meets (step (PriorityQueue.ofLess comparator) fun multiplier bitrate =>
    multiplier * bitrate) Allowed
      (start 0 0 false 500 500 0)
      [.insertPacket .normal 7 1 0 100 false 1, .process 10000 10, .insertPacket .normal 7 2 0 50 false 11,
        .insertPacket .normal 7 1 0 100 false 11, .averageQueueTimeMs 12, .packetSent true 13,
            .packetSent false 14] := by
    refine ⟨?_, ⟨rfl, ?_⟩, ?_, ?_, ?_, ⟨⟨_, rfl⟩, ?_⟩, ⟨⟨_, rfl⟩, ?_⟩, trivial⟩
    · change (0 : Int) ≤ 1
      decide
    · change (1 : Int) ≤ 10
      decide
    · change (10 : Int) ≤ 11
      decide
    · change (11 : Int) ≤ 11
      decide
    · change (11 : Int) ≤ 12
      decide
    · change (12 : Int) ≤ 13
      decide
    · change (13 : Int) ≤ 14
      decide
  exact (accounts_exact _ _ 0 0 false 500 500 0 hmeets).1

end System

end WebRtc.Pacing
