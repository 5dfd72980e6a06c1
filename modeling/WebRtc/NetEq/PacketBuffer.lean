import Mathlib.Data.List.Chain
import Mathlib.Data.List.DropRight
import WebRtc.Common.Numbers
import WebRtc.Lib.Machine
import WebRtc.Rtp.Header

/-!
# The packet buffer

| here | there |
| --- | --- |
| `Packet`, `lt` | `packet.h:22-82` |
| `insertPacket`, `insertPacketList` | `packet_buffer.cc:57-139` |
| `getNextPacket`, `discardNextPacket`, `discardOldPackets` | `packet_buffer.cc:184-237` |
| `isObsoleteTimestamp` | `packet_buffer.h:140-146` |

None is returned where an assertion fails. Of the decoder database it is asked which payload types are
comfort noise and which are DTMF.
-/

namespace WebRtc.NetEq

open Rtp

structure Packet where
  header : RTPHeader
  payload : Option (List UInt8)
  payloadLength : Nat
  primary : Bool
  waitingTime : Int
  syncPacket : Bool
deriving DecidableEq, Repr

def Packet.timestamp (p : Packet) : UInt32 := p.header.timestamp

/-- `operator<`. -/
def Packet.lt (p rhs : Packet) : Bool :=
  if p.header.timestamp = rhs.header.timestamp then
    if p.header.sequenceNumber = rhs.header.sequenceNumber then
      if rhs.syncPacket then true
      else if p.syncPacket then false
      else p.primary && !rhs.primary
    else decide (rhs.header.sequenceNumber - p.header.sequenceNumber < 0xFFFF / 2)
  else decide (rhs.header.timestamp - p.header.timestamp < 0xFFFFFFFF / 2)

inductive BufferReturnCode where
  | ok
  | flushed
  | bufferEmpty
  | invalidPacket
deriving DecidableEq, Repr

structure PacketBuffer where
  maxNumberOfPackets : Nat
  buffer : List Packet
deriving DecidableEq, Repr

/-- The payload types that are not speech. -/
structure DecoderDatabase where
  isComfortNoise : UInt8 → Bool
  isDtmf : UInt8 → Bool

def isObsoleteTimestamp (timestamp timestampLimit horizonSamples : UInt32) : Bool :=
  isNewerTimestamp timestampLimit timestamp &&
    (decide (horizonSamples = 0) || isNewerTimestamp timestamp (timestampLimit - horizonSamples))

/-- Where the packet goes in the list. It is searched from the back for a packet that does not go behind
the new one; of two packets with the same timestamp one is kept. -/
def place (packet : Packet) (buffer : List Packet) : List Packet :=
  let before := buffer.rdropWhile fun p => packet.lt p
  let behind := buffer.rtakeWhile fun p => packet.lt p
  if before.getLast?.any fun p => decide (packet.timestamp = p.timestamp) then buffer
  else match behind with
    | [] => before ++ [packet]
    | p :: rest => if packet.timestamp = p.timestamp then before ++ packet :: rest else before ++ packet :: p :: rest

namespace PacketBuffer

def create (maxNumberOfPackets : Nat) : PacketBuffer where
  maxNumberOfPackets
  buffer := []

def flush (s : PacketBuffer) : PacketBuffer := { s with buffer := [] }

def insertPacket (s : PacketBuffer) (packet : Option Packet) : PacketBuffer × BufferReturnCode :=
  match packet with
  | none => (s, .invalidPacket)
  | some packet =>
    if packet.payload.isNone then (s, .invalidPacket)
    else if s.buffer.length ≥ s.maxNumberOfPackets then ({ s with buffer := place packet [] }, .flushed)
    else ({ s with buffer := place packet s.buffer }, .ok)

/-- The buffer is flushed when the payload type of speech or of comfort noise changes. -/
def flushForType (s : PacketBuffer) (database : DecoderDatabase) (payloadType currentRtp currentCng : UInt8) :
    PacketBuffer × Bool × UInt8 × UInt8 :=
  if database.isComfortNoise payloadType then
    if currentCng ≠ 0xFF ∧ currentCng ≠ payloadType then (s.flush, true, 0xFF, payloadType)
    else (s, false, currentRtp, payloadType)
  else if !database.isDtmf payloadType then
    if currentRtp ≠ 0xFF ∧ currentRtp ≠ payloadType then (s.flush, true, payloadType, 0xFF)
    else (s, false, payloadType, currentCng)
  else (s, false, currentRtp, currentCng)

def insertPacketList (database : DecoderDatabase) :
    PacketBuffer → List Packet → UInt8 → UInt8 → Bool → PacketBuffer × BufferReturnCode × UInt8 × UInt8
  | s, [], currentRtp, currentCng, flushed => (s, if flushed then .flushed else .ok, currentRtp, currentCng)
  | s, packet :: rest, currentRtp, currentCng, flushed =>
    let (s, changed, currentRtp, currentCng) := s.flushForType database packet.header.payloadType currentRtp currentCng
    let (s, returnVal) := s.insertPacket (some packet)
    if returnVal = .flushed ∨ returnVal = .ok then
      insertPacketList database s rest currentRtp currentCng (flushed || changed || decide (returnVal = .flushed))
    else (s, returnVal, currentRtp, currentCng)

def discardNextPacket (s : PacketBuffer) : Option (PacketBuffer × BufferReturnCode) :=
  match s.buffer with
  | [] => some (s, .bufferEmpty)
  | p :: rest => if p.payload.isNone then none else some ({ s with buffer := rest }, .ok)

/-- The loop over the packets with the same timestamp. -/
def discardSame (timestamp : UInt32) : List Packet → Option (Nat × List Packet)
  | [] => some (0, [])
  | p :: rest =>
    if p.timestamp = timestamp then
      if p.payload.isNone then none else (discardSame timestamp rest).map fun (discards, left) => (discards + 1, left)
    else some (0, p :: rest)

def getNextPacket (s : PacketBuffer) : Option (PacketBuffer × Option (Packet × Nat)) :=
  match s.buffer with
  | [] => some (s, none)
  | packet :: rest =>
    if packet.payload.isNone then none
    else do
      let (discards, left) ← discardSame packet.timestamp rest
      if discards = 0 then some ({ s with buffer := left }, some (packet, discards)) else none

def discardOld (timestampLimit horizonSamples : UInt32) : List Packet → Option (List Packet)
  | [] => some []
  | p :: rest =>
    if timestampLimit ≠ p.timestamp ∧ isObsoleteTimestamp p.timestamp timestampLimit horizonSamples = true then
      if p.payload.isNone then none else discardOld timestampLimit horizonSamples rest
    else some (p :: rest)

def discardOldPackets (s : PacketBuffer) (timestampLimit horizonSamples : UInt32) : Option PacketBuffer :=
  (discardOld timestampLimit horizonSamples s.buffer).map fun left => { s with buffer := left }

end PacketBuffer

/-! ## No timestamp is repeated -/

/-- Two packets with one timestamp do not follow one another, and all have a payload. -/
structure Tidy (buffer : List Packet) : Prop where
  distinct : buffer.IsChain fun p q => p.timestamp ≠ q.timestamp
  payloads : ∀ p ∈ buffer, p.payload.isNone = false

theorem tidy_nil : Tidy [] where
  distinct := List.IsChain.nil
  payloads := by simp

theorem Tidy.tail {p : Packet} {rest : List Packet} (h : Tidy (p :: rest)) : Tidy rest where
  distinct := h.distinct.of_cons
  payloads := fun q hq => h.payloads q (List.mem_cons_of_mem p hq)

/-- What `place` does, with the packets that go before the new one and those that go behind it. -/
theorem place_cases (packet : Packet) (buffer : List Packet) : ∃ before behind, buffer = before ++ behind ∧
    (∀ p ∈ behind, packet.lt p = true) ∧ (∀ p ∈ before.getLast?, packet.lt p = false) ∧
    ((∃ p ∈ before.getLast?, packet.timestamp = p.timestamp) ∧ place packet buffer = buffer ∨
      (∀ p ∈ before.getLast?, packet.timestamp ≠ p.timestamp) ∧ ∃ rest, place packet buffer = before ++ packet :: rest ∧
        (behind = rest ∧ (∀ p ∈ rest.head?, packet.timestamp ≠ p.timestamp) ∨
          ∃ p, behind = p :: rest ∧ packet.timestamp = p.timestamp)) := by
  refine ⟨buffer.rdropWhile fun p => packet.lt p, buffer.rtakeWhile fun p => packet.lt p, ?_, ?_, ?_, ?_⟩
  · simp
  · intro p hp
    exact List.mem_rtakeWhile_imp hp
  · intro p hp
    obtain ⟨hne, rfl⟩ := List.mem_getLast?_eq_getLast hp
    simpa using List.rdropWhile_last_not (fun p => packet.lt p) buffer hne
  unfold place
  dsimp only
  generalize (buffer.rdropWhile fun p => packet.lt p) = before
  generalize (buffer.rtakeWhile fun p => packet.lt p) = behind
  by_cases hlast : (before.getLast?.any fun p => decide (packet.timestamp = p.timestamp)) = true
  · rw [if_pos hlast]
    left
    simpa [Option.any_eq_true] using hlast
  · rw [if_neg hlast]
    right
    constructor
    · intro p hp heq
      apply hlast
      rw [Option.any_eq_true]
      exact ⟨p, hp, by simpa using heq⟩
    · cases behind with
      | nil => exact ⟨[], rfl, Or.inl ⟨rfl, by simp⟩⟩
      | cons p rest =>
        by_cases heq : packet.timestamp = p.timestamp
        · exact ⟨rest, by simp only [heq, if_true], Or.inr ⟨p, rfl, heq⟩⟩
        · exact ⟨p :: rest, by simp only [heq, if_false], Or.inl ⟨rfl, by simpa using heq⟩⟩

theorem Tidy.place {packet : Packet} {buffer : List Packet} (h : Tidy buffer)
    (hpayload : packet.payload.isNone = false) :
    Tidy (place packet buffer) := by
  obtain ⟨before, behind, rfl, -, -, ⟨-, hsame⟩ | ⟨hbefore, rest, hplace, hrest⟩⟩ := place_cases packet buffer
  · rw [hsame]
    exact h
  rw [hplace]
  obtain ⟨hfirst, hsecond, hjoin⟩ := List.isChain_append.1 h.distinct
  have hbehind : (∀ q ∈ rest.head?, packet.timestamp ≠ q.timestamp) ∧
    rest.IsChain (fun p q => p.timestamp ≠ q.timestamp) ∧
      ∀ q ∈ rest, q ∈ behind := by
    rcases hrest with ⟨rfl, hne⟩ | ⟨p, rfl, heq⟩
    · exact ⟨hne, hsecond, fun q hq => hq⟩
    · obtain ⟨hhead, htail⟩ := List.isChain_cons.1 hsecond
      exact ⟨fun q hq => by rw [heq]; exact hhead q hq, htail, fun q hq => List.mem_cons_of_mem p hq⟩
  obtain ⟨hhead, hchain, hmem⟩ := hbehind
  constructor
  · rw [List.isChain_append]
    refine ⟨hfirst, List.isChain_cons.2 ⟨hhead, hchain⟩, ?_⟩
    intro p hp q hq
    rw [List.head?_cons, Option.mem_def, Option.some.injEq] at hq
    subst hq
    exact Ne.symm (hbefore p hp)
  · intro p hp
    rcases List.mem_append.1 hp with hp | hp
    · exact h.payloads p (List.mem_append_left _ hp)
    · rcases List.mem_cons.1 hp with rfl | hp
      · exact hpayload
      · exact h.payloads p (List.mem_append_right _ (hmem p hp))

namespace PacketBuffer

section Tidy
variable {s : PacketBuffer} (h : Tidy s.buffer)
include h

theorem insertPacket_tidy (packet : Option Packet) : Tidy (s.insertPacket packet).1.buffer := by
  unfold insertPacket
  cases packet with
  | none => exact h
  | some packet =>
    dsimp only
    by_cases hpayload : packet.payload.isNone = true
    · rw [if_pos hpayload]
      exact h
    rw [if_neg hpayload]
    rw [Bool.not_eq_true] at hpayload
    by_cases hfull : s.buffer.length ≥ s.maxNumberOfPackets
    · rw [if_pos hfull]
      exact tidy_nil.place hpayload
    · rw [if_neg hfull]
      exact h.place hpayload

theorem flushForType_tidy (database : DecoderDatabase) (payloadType currentRtp currentCng : UInt8) :
    Tidy (s.flushForType database payloadType currentRtp currentCng).1.buffer := by
  unfold flushForType
  split
  · split
    · exact tidy_nil
    · exact h
  · split
    · split
      · exact tidy_nil
      · exact h
    · exact h

theorem insertPacketList_tidy (database : DecoderDatabase) (packets : List Packet)
    (currentRtp currentCng : UInt8) (flushed : Bool) :
    Tidy (insertPacketList database s packets currentRtp currentCng flushed).1.buffer := by
  induction packets generalizing s currentRtp currentCng flushed with
  | nil => exact h
  | cons packet rest ih =>
    have hinsert := insertPacket_tidy
      (flushForType_tidy h database packet.header.payloadType currentRtp currentCng) (some packet)
    unfold insertPacketList
    dsimp only
    split
    · exact ih hinsert _ _ _
    · exact hinsert

theorem discardNextPacket_tidy : ∃ s' returnVal, s.discardNextPacket = some (s', returnVal) ∧ Tidy s'.buffer := by
  unfold discardNextPacket
  cases hbuffer : s.buffer with
  | nil => exact ⟨s, _, rfl, h⟩
  | cons p rest =>
    rw [hbuffer] at h
    dsimp only
    rw [if_neg (by simp [h.payloads p List.mem_cons_self])]
    exact ⟨_, _, rfl, h.tail⟩

/-- **Nothing is discarded**: the assertion holds. -/
theorem getNextPacket_tidy : ∃ s' next, s.getNextPacket = some (s', next) ∧ Tidy s'.buffer := by
  unfold getNextPacket
  cases hbuffer : s.buffer with
  | nil => exact ⟨s, _, rfl, h⟩
  | cons p rest =>
    rw [hbuffer] at h
    dsimp only
    rw [if_neg (by simp [h.payloads p List.mem_cons_self])]
    have hnone : discardSame p.timestamp rest = some (0, rest) := by
      cases rest with
      | nil => rfl
      | cons q rest =>
        have hne := (List.isChain_cons_cons.1 h.distinct).1
        unfold discardSame
        rw [if_neg (Ne.symm hne)]
    simp only [hnone, Option.bind_eq_bind, Option.bind_some, if_true]
    exact ⟨_, _, rfl, h.tail⟩

theorem discardOldPackets_tidy (timestampLimit horizonSamples : UInt32) :
    ∃ s', s.discardOldPackets timestampLimit horizonSamples = some s' ∧ Tidy s'.buffer := by
  have hold : ∃ left, discardOld timestampLimit horizonSamples s.buffer = some left ∧ Tidy left := by
    generalize s.buffer = buffer at h
    induction buffer with
    | nil => exact ⟨[], rfl, h⟩
    | cons p rest ih =>
      unfold discardOld
      by_cases hobsolete : timestampLimit ≠ p.timestamp ∧
        isObsoleteTimestamp p.timestamp timestampLimit horizonSamples = true
      · rw [if_pos hobsolete, if_neg (by simp [h.payloads p List.mem_cons_self])]
        exact ih h.tail
      · rw [if_neg hobsolete]
        exact ⟨_, rfl, h⟩
  obtain ⟨left, hleft, htidy⟩ := hold
  unfold discardOldPackets
  rw [hleft]
  exact ⟨_, rfl, htidy⟩

end Tidy

end PacketBuffer

inductive BufferCall where
  | insertPacket (packet : Option Packet)
  | insertPacketList (database : DecoderDatabase) (packets : List Packet) (currentRtp currentCng : UInt8)
  | flush
  | getNextPacket
  | discardNextPacket
  | discardOldPackets (timestampLimit horizonSamples : UInt32)

/-- The buffer after a call. -/
def bufferStep (s : Option PacketBuffer) (c : BufferCall) : Option PacketBuffer × Unit :=
  (s.bind fun s =>
    match c with
    | .insertPacket packet => some (s.insertPacket packet).1
    | .insertPacketList database packets currentRtp currentCng =>
      some (PacketBuffer.insertPacketList database s packets currentRtp currentCng false).1
    | .flush => some s.flush
    | .getNextPacket => s.getNextPacket.map Prod.fst
    | .discardNextPacket => s.discardNextPacket.map Prod.fst
    | .discardOldPackets timestampLimit horizonSamples => s.discardOldPackets timestampLimit horizonSamples, ())

theorem bufferStep_tidy (o : Option PacketBuffer) (c : BufferCall) (h : ∃ s, o = some s ∧ Tidy s.buffer) :
    ∃ s, (bufferStep o c).1 = some s ∧ Tidy s.buffer := by
  obtain ⟨s, rfl, h⟩ := h
  cases c with
  | insertPacket packet => exact ⟨_, rfl, PacketBuffer.insertPacket_tidy h packet⟩
  | insertPacketList database packets currentRtp currentCng =>
    exact ⟨_, rfl, PacketBuffer.insertPacketList_tidy h database packets currentRtp currentCng false⟩
  | flush => exact ⟨_, rfl, tidy_nil⟩
  | getNextPacket =>
    obtain ⟨s', next, hnext, h'⟩ := PacketBuffer.getNextPacket_tidy h
    exact ⟨s', congrArg (Option.map Prod.fst) hnext, h'⟩
  | discardNextPacket =>
    obtain ⟨s', returnVal, hnext, h'⟩ := PacketBuffer.discardNextPacket_tidy h
    exact ⟨s', congrArg (Option.map Prod.fst) hnext, h'⟩
  | discardOldPackets timestampLimit horizonSamples =>
    obtain ⟨s', hold, h'⟩ := PacketBuffer.discardOldPackets_tidy h timestampLimit horizonSamples
    exact ⟨s', hold, h'⟩

/-- No assertion fails in a run, and no two packets with one timestamp follow one another. -/
theorem tidy_always (maxNumberOfPackets : Nat) (calls : List BufferCall) :
    Machine.Always bufferStep (fun o => ∃ s, o = some s ∧ Tidy s.buffer) (some (.create maxNumberOfPackets)) calls :=
  Machine.always_of_meets (fun o c h _ => bufferStep_tidy o c h) ⟨_, rfl, tidy_nil⟩
    (Machine.meets_of_forall bufferStep (fun _ _ => trivial) _)

end WebRtc.NetEq
