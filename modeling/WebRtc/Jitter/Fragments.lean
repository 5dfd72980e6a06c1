import WebRtc.Jitter.Session
import WebRtc.Lib.Tiles

/-!
# The partitions of a VP8 frame

| here | there |
| --- | --- |
| `Building`, `addFragment`, `fillOne`, `buildVP8FragmentationHeader` | `session_info.cc:340-387` |
| `findNextPartitionBeginning` | `session_info.cc:389-398` |
| `findPartitionEnd`, `follows` | `session_info.cc:400-432` |

An iterator is the list of the packets from there to the end. `asserted` tells whether all assertions so far hold.
-/

namespace WebRtc.Jitter

open Cut

abbrev kMaxVP8Partitions : Nat := 9

/-- Where a VP8 packet stands, and what its descriptor says. -/
structure Vp8Area extends Area where
  partitionId : Fin kMaxVP8Partitions
  beginningOfPartition : Bool
deriving DecidableEq, Repr

abbrev Vp8Packet := VCMPacket Vp8Area

/-- The arrays have room for all partitions. -/
structure RTPFragmentationHeader where
  fragmentationVectorSize : Nat
  fragmentationOffset : Nat → Nat
  fragmentationLength : Nat → Nat

/-- What `BuildVP8FragmentationHeader` has made so far. -/
structure Building extends RTPFragmentationHeader where
  newLength : Nat := 0
  asserted : Bool := true

/-! ## The code -/

/-- `InSequence` of a packet and the one before it. -/
def follows (packet previous : Vp8Packet) : Bool := previous.seqNum + 1 == packet.seqNum

def findNextPartitionBeginning (it : List Vp8Packet) : List Vp8Packet :=
  it.dropWhile fun packet => !packet.data.beginningOfPartition

/-- The last packet of the partition, and the iterator behind it. -/
def findPartitionEnd (partitionId : Fin kMaxVP8Partitions) (prevIt : Vp8Packet) :
    List Vp8Packet → Vp8Packet × List Vp8Packet
  | [] => (prevIt, [])
  | packet :: rest =>
    let packetLossFound := !packet.data.beginningOfPartition && !follows packet prevIt
    if packetLossFound || packet.data.beginningOfPartition && packet.data.partitionId != partitionId then
      (prevIt, packet :: rest)
    else findPartitionEnd partitionId packet rest

def addFragment (frameBufferLength : Nat) (b : Building) (partitionId offset length : Nat) : Building where
  fragmentationVectorSize := if b.fragmentationVectorSize < partitionId + 1 then partitionId + 1
    else b.fragmentationVectorSize
  fragmentationOffset := Function.update b.fragmentationOffset partitionId offset
  fragmentationLength := Function.update b.fragmentationLength partitionId length
  newLength := b.newLength + length
  asserted := b.asserted && decide (offset < frameBufferLength) && decide (length ≤ frameBufferLength)

theorem findPartitionEnd_length (partitionId : Fin kMaxVP8Partitions) (prevIt : Vp8Packet) (it : List Vp8Packet) :
    (findPartitionEnd partitionId prevIt it).2.length ≤ it.length := by
  induction it generalizing prevIt with
  | nil => exact Nat.le_refl _
  | cons packet rest ih =>
    unfold findPartitionEnd
    dsimp only
    split
    · exact Nat.le_refl _
    · exact Nat.le_succ_of_le (ih packet)

theorem findNextPartitionBeginning_length (it : List Vp8Packet) : (findNextPartitionBeginning it).length ≤ it.length :=
  (List.dropWhile_sublist _).length_le

/-- The loop, from the beginning of a partition on. -/
def buildLoop (frameBufferLength : Nat) (b : Building) : List Vp8Packet → Building
  | [] => b
  | first :: rest =>
    let partitionEnd := findPartitionEnd first.data.partitionId first rest
    let last := partitionEnd.1
    let checked := { b with asserted := b.asserted && decide (first.codec = .vp8) }
    let added := addFragment frameBufferLength checked first.data.partitionId first.data.dataPtr
      (last.data.dataPtr + last.data.sizeBytes - first.data.dataPtr)
    buildLoop frameBufferLength added (findNextPartitionBeginning partitionEnd.2)
termination_by it => it.length
decreasing_by
  have hend := findPartitionEnd_length first.data.partitionId first rest
  have hnext := findNextPartitionBeginning_length (findPartitionEnd first.data.partitionId first rest).2
  simp only [List.length_cons]
  omega

/-- An empty fragment begins where the one before it ends. -/
def fillOne (b : Building) (i : Nat) : Building :=
  let offset := if b.fragmentationLength i = 0 then
      Function.update b.fragmentationOffset i (b.fragmentationOffset (i - 1) + b.fragmentationLength (i - 1))
    else b.fragmentationOffset
  { b with
    fragmentationOffset := offset
    asserted := b.asserted && (i == 0 || decide (offset (i - 1) ≤ offset i)) }

/-- Fills the fragments from the second one on. -/
def fill (b : Building) : Building :=
  let started := if b.fragmentationLength 0 = 0 then
      { b with fragmentationOffset := Function.update b.fragmentationOffset 0 0 }
    else b
  (List.range' 1 (b.fragmentationVectorSize - 1)).foldl fillOne started

def buildVP8FragmentationHeader (packets : List Vp8Packet) (frameBufferLength : Nat)
    (fragmentation : RTPFragmentationHeader) : Building :=
  let started : Building :=
    { fragmentation with fragmentationVectorSize := 0, fragmentationLength := fun _ => 0 }
  if packets = [] then started
  else
    let filled := fill (buildLoop frameBufferLength started (findNextPartitionBeginning packets))
    { filled with asserted := filled.asserted && decide (filled.newLength ≤ frameBufferLength) }

/-! ## Pieces -/

/-- A packet at which a partition begins, those that are taken with it, and those behind. -/
structure Piece where
  first : Vp8Packet
  more : List Vp8Packet
  behind : List Vp8Packet

def sizeOf (packets : List Vp8Packet) : Nat := (packets.map fun packet => packet.data.sizeBytes).sum

namespace Piece

def packets (piece : Piece) : List Vp8Packet := piece.first :: piece.more

def partitionId (piece : Piece) : Nat := piece.first.data.partitionId

def offset (piece : Piece) : Nat := piece.first.data.dataPtr

def size (piece : Piece) : Nat := sizeOf piece.packets

end Piece

/-- The packets without loss, and without the beginning of another partition, and those behind them. -/
def takePartition (partitionId : Fin kMaxVP8Partitions) (prevIt : Vp8Packet) :
    List Vp8Packet → List Vp8Packet × List Vp8Packet
  | [] => ([], [])
  | packet :: rest =>
    if packet.data.beginningOfPartition && packet.data.partitionId == partitionId ||
        !packet.data.beginningOfPartition && follows packet prevIt then
      ((takePartition partitionId packet rest).1.cons packet, (takePartition partitionId packet rest).2)
    else ([], packet :: rest)

theorem takePartition_append (partitionId : Fin kMaxVP8Partitions) (prevIt : Vp8Packet) (it : List Vp8Packet) :
    (takePartition partitionId prevIt it).1 ++ (takePartition partitionId prevIt it).2 = it := by
  induction it generalizing prevIt with
  | nil => rfl
  | cons packet rest ih =>
    unfold takePartition
    split
    · exact congrArg (packet :: ·) (ih packet)
    · rfl

/-- The pieces of the packets from the beginning of a partition on. -/
def piecesFrom : List Vp8Packet → List Piece
  | [] => []
  | first :: rest =>
    { first
      more := (takePartition first.data.partitionId first rest).1
      behind := (takePartition first.data.partitionId first rest).2 } ::
      piecesFrom (findNextPartitionBeginning (takePartition first.data.partitionId first rest).2)
termination_by it => it.length
decreasing_by
  have happend := congrArg List.length (takePartition_append first.data.partitionId first rest)
  have hnext := findNextPartitionBeginning_length (takePartition first.data.partitionId first rest).2
  rw [List.length_append] at happend
  simp only [List.length_cons]
  omega

def pieces (packets : List Vp8Packet) : List Piece := piecesFrom (findNextPartitionBeginning packets)

/-- `FindPartitionEnd` finds the last packet of the piece. -/
theorem findPartitionEnd_eq (partitionId : Fin kMaxVP8Partitions) (prevIt : Vp8Packet) (it : List Vp8Packet) :
    findPartitionEnd partitionId prevIt it =
      ((takePartition partitionId prevIt it).1.getLastD prevIt, (takePartition partitionId prevIt it).2) := by
  induction it generalizing prevIt with
  | nil => rfl
  | cons packet rest ih =>
    have hcond : ((!packet.data.beginningOfPartition && !follows packet prevIt ||
        packet.data.beginningOfPartition && packet.data.partitionId != partitionId) = true) ↔
          ¬ ((packet.data.beginningOfPartition && packet.data.partitionId == partitionId ||
            !packet.data.beginningOfPartition && follows packet prevIt) = true) := by
      cases packet.data.beginningOfPartition <;> simp
    unfold findPartitionEnd takePartition
    dsimp only
    by_cases htaken : (packet.data.beginningOfPartition && packet.data.partitionId == partitionId ||
        !packet.data.beginningOfPartition && follows packet prevIt) = true
    · rw [if_neg fun h => hcond.1 h htaken, if_pos htaken, ih packet, List.getLastD_cons]
    · rw [if_pos (hcond.2 htaken), if_neg htaken]
      rfl

/-- Packets that lie one behind the other are moved together. -/
theorem tiles_shift (steps : Nat) {packets : List StoredPacket} {a b : Nat}
    (hplaced : ∀ packet ∈ packets, packet.data.isNull = false)
    (h : Tiles (fun packet : StoredPacket => packet.data.dataPtr) (fun packet => packet.data.sizeBytes) a packets b) :
    Tiles (fun packet : StoredPacket => packet.data.dataPtr) (fun packet => packet.data.sizeBytes) (a + steps)
      (packets.map (shifted steps)) (b + steps) := by
  induction packets generalizing a with
  | nil =>
    rw [h.of_nil]
    exact .nil _
  | cons packet rest ih =>
    obtain ⟨rfl, hrest⟩ := h.of_cons
    have hmoved := ih (fun q hq => hplaced q (List.mem_cons_of_mem packet hq)) hrest
    rw [Nat.add_right_comm] at hmoved
    rw [List.map_cons, shifted_of_placed steps (hplaced packet List.mem_cons_self)]
    exact .cons (p := { packet with data := { packet.data with dataPtr := packet.data.dataPtr + steps } }) hmoved

/-- **A packet is put between the others**, which lie one behind the other before and after. -/
theorem insertBuffer_tiles (frameBuffer : Memory) (before after : List StoredPacket) (packet : ReceivedPacket) {n : Nat}
    (hplaced : ∀ packet ∈ after, packet.data.isNull = false)
    (h : Tiles (fun packet : StoredPacket => packet.data.dataPtr) (fun packet => packet.data.sizeBytes) 0
      (before ++ after) n) :
    Tiles (fun packet : StoredPacket => packet.data.dataPtr) (fun packet => packet.data.sizeBytes) 0
      (insertBuffer frameBuffer before packet after).1 (n + (insertBuffer frameBuffer before packet after).2.2) := by
  obtain ⟨c, hbefore, hafter⟩ := h.split
  have hoffset : totalSize before = c := (Nat.zero_add _).symm.trans hbefore.sum
  have hshifted (steps : Nat) : (shiftSubsequentPackets frameBuffer steps after).1 = after.map (shifted steps) := by
    cases after <;> rfl
  have hinserted (sizeBytes : Nat) : Tiles (fun packet : StoredPacket => packet.data.dataPtr)
      (fun packet => packet.data.sizeBytes) 0
      (before ++ { packet with data := { dataPtr := totalSize before, sizeBytes : Area } } ::
        (shiftSubsequentPackets frameBuffer sizeBytes after).1) (n + sizeBytes) := by
    rw [hshifted, hoffset]
    exact hbefore.append (.cons (p := { packet with data := { dataPtr := c, sizeBytes : Area } })
      (tiles_shift sizeBytes hplaced hafter))
  unfold insertBuffer
  dsimp only
  split
  · exact hinserted _
  · exact hinserted _

/-- The packets as `InsertPacket` stores them: one behind the other, from the start of the buffer on. -/
structure Stored (packets : List Vp8Packet) : Prop where
  codec : ∀ packet ∈ packets, packet.codec = .vp8
  tiles : Tiles (fun packet : Vp8Packet => packet.data.dataPtr) (fun packet => packet.data.sizeBytes) 0 packets
    (sizeOf packets)

section Layout
variable {packets : List Vp8Packet} {a b : Nat}

abbrev Laid (a : Nat) (packets : List Vp8Packet) (b : Nat) : Prop :=
  Tiles (fun packet : Vp8Packet => packet.data.dataPtr) (fun packet => packet.data.sizeBytes) a packets b

theorem Laid.next (h : Laid a packets b) : ∃ c, a ≤ c ∧ Laid c (findNextPartitionBeginning packets) b := by
  rw [← List.takeWhile_append_dropWhile (p := fun packet : Vp8Packet =>
    !packet.data.beginningOfPartition) (l := packets)] at h
  obtain ⟨c, hskipped, hrest⟩ := h.split
  exact ⟨c, hskipped.le, hrest⟩

/-- Where the last packet of a piece ends. -/
theorem Laid.last {first : Vp8Packet} {more : List Vp8Packet} (h : Laid a (first :: more) b) :
    (more.getLastD first).data.dataPtr + (more.getLastD first).data.sizeBytes = b := by
  induction more generalizing a first with
  | nil => exact h.of_cons.2.of_nil
  | cons packet more ih =>
    rw [List.getLastD_cons]
    exact ih h.of_cons.2

/-- **Where the pieces lie**: each one ends where those behind it begin, and none overlaps the next. -/
theorem Laid.pieces (h : Laid a packets b) :
    (∀ piece ∈ piecesFrom packets, a ≤ piece.offset ∧ piece.offset + piece.size + sizeOf piece.behind = b ∧
      (piece.more.getLastD piece.first).data.dataPtr + (piece.more.getLastD piece.first).data.sizeBytes =
        piece.offset + piece.size) ∧
    (piecesFrom packets).Pairwise fun piece later => piece.offset + piece.size ≤ later.offset := by
  induction packets using piecesFrom.induct generalizing a with
  | case1 =>
    unfold piecesFrom
    exact ⟨fun piece hpiece => absurd hpiece List.not_mem_nil, .nil⟩
  | case2 first rest ih =>
    have happend := takePartition_append first.data.partitionId first rest
    rw [piecesFrom]
    generalize takePartition first.data.partitionId first rest = taken at ih happend ⊢
    have hsplit : Laid a ((first :: taken.1) ++ taken.2) b := by rwa [List.cons_append, happend]
    obtain ⟨c, hpiece, hbehind⟩ := hsplit.split
    obtain ⟨d, hcd, hnext⟩ := Laid.next hbehind
    obtain ⟨hin, hapart⟩ := ih hnext
    have hoffset : first.data.dataPtr = a := hpiece.of_cons.1
    have hsize : a + sizeOf (first :: taken.1) = c := hpiece.sum
    have hsum : c + sizeOf taken.2 = b := hbehind.sum
    have hlast := Laid.last hpiece
    constructor
    · intro piece hmem
      rcases List.mem_cons.1 hmem with rfl | hmem
      · simp only [Piece.offset, Piece.size, Piece.packets]
        omega
      · obtain ⟨hle, hrest⟩ := hin piece hmem
        have := hpiece.le
        exact ⟨by omega, hrest⟩
    · refine List.pairwise_cons.2 ⟨fun later hlater => ?_, hapart⟩
      have hle := (hin later hlater).1
      simp only [Piece.offset, Piece.size, Piece.packets] at hle ⊢
      omega

end Layout

end WebRtc.Jitter
