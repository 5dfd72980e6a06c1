import Mathlib.Algebra.BigOperators.Group.List.Basic
import Mathlib.Data.Finset.Basic
import Mathlib.Data.Finset.Insert
import WebRtc.Lib.PriorityQueue

/-!
# The packet queue of the pacer (`paced_sender.cc`)

| here | there |
| --- | --- |
| `Packet`, `comparator` | `paced_sender::Packet`, `Comparator` (paced_sender.cc:39, 70) |
| `DupeMap`              | `SsrcSeqNoMap` (:183) |
| `PacketQueue`          | `PacketQueue` (:89): `packetList` has the front first |
| `addToDupeSet`, `removeFromDupeSet` | `AddToDupeSet` (:155), `RemoveFromDupeSet` (:167) |
| `push`, `beginPop`, `cancelPop`, `finalizePop` | the methods of the same names (:98-130) |
| `updateQueueTime`, `averageQueueTimeMs`, `oldestEnqueueTimeMs` | the methods of the same names (:138-153) |

A method has no result where an `RTC_DCHECK` in it fails. `this_it` finds a packet of the list again; no
two packets there are equal (`Exact.distinct`), so here it is found by its value. Times are integers
that do not overflow.
-/

namespace WebRtc.Pacing

inductive Priority where
  | high
  | normal
  | low
deriving DecidableEq, Repr

/-- The number of the enumerator. -/
def Priority.toInt : Priority → Int
  | high => 0
  | normal => 2
  | low => 3

structure Packet where
  priority : Priority
  ssrc : UInt32
  sequenceNumber : UInt16
  captureTimeMs : Int
  enqueueTimeMs : Int
  bytes : UInt64
  retransmission : Bool
  enqueueOrder : UInt64
deriving DecidableEq, Repr

/-- Whether the first packet goes after the second. -/
def comparator (first second : Packet) : Bool :=
  -- Highest prio = 0.
  if first.priority ≠ second.priority then first.priority.toInt > second.priority.toInt
  -- Retransmissions go first.
  else if second.retransmission && !first.retransmission then true
  -- Older frames have higher prio.
  else if first.captureTimeMs ≠ second.captureTimeMs then first.captureTimeMs > second.captureTimeMs
  else first.enqueueOrder > second.enqueueOrder

abbrev DupeMap := UInt32 → Option (Finset UInt16)

structure PacketQueue where
  packetList : List Packet
  prioQueue : List Packet
  bytes : UInt64
  dupeMap : DupeMap
  queueTimeSum : Int
  timeLastUpdated : Int

/-- Whether the packet was new. -/
def addToDupeSet (dupeMap : DupeMap) (packet : Packet) : DupeMap × Bool :=
  match dupeMap packet.ssrc with
  | none => (Function.update dupeMap packet.ssrc (some {packet.sequenceNumber}), true)
  | some seqNos =>
    (Function.update dupeMap packet.ssrc (some (insert packet.sequenceNumber seqNos)), packet.sequenceNumber ∉ seqNos)

def removeFromDupeSet (dupeMap : DupeMap) (packet : Packet) : Option DupeMap :=
  match dupeMap packet.ssrc with
  | none => none
  | some seqNos =>
    let left := seqNos.erase packet.sequenceNumber
    some (Function.update dupeMap packet.ssrc (if left = ∅ then none else some left))

namespace PacketQueue

def create (nowMs : Int) : PacketQueue where
  packetList := []
  prioQueue := []
  bytes := 0
  dupeMap := fun _ => none
  queueTimeSum := 0
  timeLastUpdated := nowMs

def updateQueueTime (q : PacketQueue) (timestampMs : Int) : Option PacketQueue :=
  if timestampMs ≥ q.timeLastUpdated then
    let delta := timestampMs - q.timeLastUpdated
    some { q with queueTimeSum := q.queueTimeSum + delta * q.packetList.length, timeLastUpdated := timestampMs }
  else none

def push (heap : PriorityQueue Packet) (q : PacketQueue) (packet : Packet) : Option PacketQueue :=
  let (dupeMap, added) := addToDupeSet q.dupeMap packet
  let q := { q with dupeMap := dupeMap }
  if !added then some q
  else (q.updateQueueTime packet.enqueueTimeMs).map fun q => { q with
    packetList := packet :: q.packetList
    prioQueue := heap.push q.prioQueue packet
    bytes := q.bytes + packet.bytes }

/-- The packet, which stays in the list. -/
def beginPop (heap : PriorityQueue Packet) (q : PacketQueue) : Option (Packet × PacketQueue) :=
  (heap.top q.prioQueue).map fun packet => (packet, { q with prioQueue := heap.pop q.prioQueue })

def cancelPop (heap : PriorityQueue Packet) (q : PacketQueue) (packet : Packet) : PacketQueue :=
  { q with prioQueue := heap.push q.prioQueue packet }

def finalizePop (q : PacketQueue) (packet : Packet) : Option PacketQueue := do
  let dupeMap ← removeFromDupeSet q.dupeMap packet
  let q := { q with
    dupeMap := dupeMap
    bytes := q.bytes - packet.bytes
    queueTimeSum := q.queueTimeSum - (q.timeLastUpdated - packet.enqueueTimeMs)
    packetList := q.packetList.erase packet }
  if q.packetList.length ≠ q.prioQueue.length then none
  else if q.packetList.isEmpty ∧ q.queueTimeSum ≠ 0 then none
  else some q

def isEmpty (q : PacketQueue) : Bool := q.prioQueue.isEmpty

def sizeInPackets (q : PacketQueue) : Nat := q.prioQueue.length

def sizeInBytes (q : PacketQueue) : UInt64 := q.bytes

def oldestEnqueueTimeMs (q : PacketQueue) : Int :=
  match q.packetList.getLast? with
  | none => 0
  | some packet => packet.enqueueTimeMs

/-- The sum is divided as a `uint64_t`. -/
def averageQueueTimeMs (q : PacketQueue) : Int :=
  if q.prioQueue.isEmpty then 0 else (q.queueTimeSum % 18446744073709551616) / q.packetList.length

end PacketQueue

/-! ## What the methods do -/

/-- The pair is in the map. -/
def InDupeMap (dupeMap : DupeMap) (ssrc : UInt32) (sequenceNumber : UInt16) : Prop :=
  ∃ seqNos, dupeMap ssrc = some seqNos ∧ sequenceNumber ∈ seqNos

theorem addToDupeSet_added (dupeMap : DupeMap) (packet : Packet) :
    (addToDupeSet dupeMap packet).2 = true ↔ ¬ InDupeMap dupeMap packet.ssrc packet.sequenceNumber := by
  unfold addToDupeSet InDupeMap
  cases h : dupeMap packet.ssrc with
  | none => simp
  | some seqNos => simp

theorem inDupeMap_addToDupeSet (dupeMap : DupeMap) (packet : Packet) (ssrc : UInt32) (sequenceNumber : UInt16) :
    InDupeMap (addToDupeSet dupeMap packet).1 ssrc sequenceNumber ↔
      (ssrc = packet.ssrc ∧ sequenceNumber = packet.sequenceNumber) ∨ InDupeMap dupeMap ssrc sequenceNumber := by
  unfold addToDupeSet InDupeMap
  by_cases hs : ssrc = packet.ssrc
  · subst hs
    cases h : dupeMap packet.ssrc with
    | none => simp
    | some seqNos => simp
  · cases h : dupeMap packet.ssrc with
    | none => simp [hs]
    | some seqNos => simp [hs]

theorem removeFromDupeSet_spec {dupeMap : DupeMap} {packet : Packet}
    (h : InDupeMap dupeMap packet.ssrc packet.sequenceNumber) :
    ∃ left, removeFromDupeSet dupeMap packet = some left ∧
      ∀ ssrc sequenceNumber, InDupeMap left ssrc sequenceNumber ↔
        InDupeMap dupeMap ssrc sequenceNumber ∧ ¬ (ssrc = packet.ssrc ∧ sequenceNumber = packet.sequenceNumber) := by
  obtain ⟨seqNos, hfind, _⟩ := h
  unfold removeFromDupeSet InDupeMap
  rw [hfind]
  refine ⟨_, rfl, ?_⟩
  intro ssrc sequenceNumber
  by_cases hs : ssrc = packet.ssrc
  · subst hs
    rw [Function.update_self, hfind]
    split
    · rename_i hempty
      have hall : ∀ n ∈ seqNos, n = packet.sequenceNumber := by
        intro n hn
        by_contra hne
        have hin : n ∈ seqNos.erase packet.sequenceNumber := Finset.mem_erase.mpr ⟨hne, hn⟩
        rw [hempty] at hin
        exact absurd hin (Finset.notMem_empty n)
      constructor
      · rintro ⟨_, hnone, _⟩
        cases hnone
      · rintro ⟨⟨found, hfound, hmem⟩, hne⟩
        cases hfound
        exact absurd ⟨rfl, hall _ hmem⟩ hne
    · simp
      tauto
  · rw [Function.update_of_ne hs]
    simp [hs]

end WebRtc.Pacing
