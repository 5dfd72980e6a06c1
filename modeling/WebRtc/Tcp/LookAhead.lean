import WebRtc.Lib.Machine
import WebRtc.Lib.Ring
import WebRtc.Tcp.FifoBuffer

/-!
# The buffer as a queue

What the buffer is for: a queue of bytes, and behind its end room in which bytes can stand before those in front of
them are there (`ByteQueue`). The positions of the bytes are counted from the first one that ever came, so that they
do not move when bytes are read or when the end of the buffer is passed. A byte that becomes readable is the one
that was written last at its position; when nothing was written there it can be any byte.
-/

namespace WebRtc.Tcp

open CInt

inductive FifoOp where
  | read (bytes : Nat)
  | write (data : List UInt8)
  | readOffset (bytes offset : Nat)
  | writeOffset (data : List UInt8) (offset : Nat)
  | consumeReadData (size : Nat)
  | consumeWriteBuffer (size : Nat)
  | getReadData
  | setCapacity (size : Nat)

/-- None is `SR_BLOCK`. -/
inductive FifoResult where
  | data (bytes : Option (List UInt8))
  | written (size : Option Nat)
  | accepted (holds : Bool)
  | done

/-! ## The queue -/

structure ByteQueue where
  capacity : Nat
  bytes : List UInt8
  /-- The position behind the last byte. -/
  tail : Nat
  /-- What was written at a position, within the capacity from the first byte on. -/
  written : Nat → Option UInt8
  fits : bytes.length ≤ capacity
  inside : ∀ p byte, written p = some byte → p + bytes.length < tail + capacity

namespace ByteQueue

def empty (capacity : Nat) : ByteQueue where
  capacity
  bytes := []
  tail := 0
  written := fun _ => none
  fits := Nat.zero_le _
  inside := fun _ _ h => by cases h

def free (q : ByteQueue) : Nat := q.capacity - q.bytes.length

def overwrite (written : Nat → Option UInt8) (p : Nat) (data : List UInt8) : Nat → Option UInt8 :=
  fun a => if p ≤ a ∧ a < p + data.length then data[a - p]? else written a

/-- The queue is made of these. -/
def Is (q : ByteQueue) (capacity : Nat) (bytes : List UInt8) (tail : Nat) (written : Nat → Option UInt8) : Prop :=
  q.capacity = capacity ∧ q.bytes = bytes ∧ q.tail = tail ∧ q.written = written

/-- What an operation returns, and what it makes of the queue. -/
def Step (q : ByteQueue) : FifoOp → FifoResult → ByteQueue → Prop
  | .read n, r, q' =>
    r = .data (if q.bytes = [] then none else some (q.bytes.take n)) ∧
      q'.Is q.capacity (q.bytes.drop n) q.tail q.written
  | .write data, r, q' =>
    let accepted := data.take q.free
    r = .written (if q.free = 0 then none else some accepted.length) ∧
      q'.Is q.capacity (q.bytes ++ accepted) (q.tail + accepted.length) (overwrite q.written q.tail accepted)
  | .readOffset n offset, r, q' =>
    r = .data (if q.bytes.length ≤ offset then none else some ((q.bytes.drop offset).take n)) ∧ q' = q
  | .writeOffset data offset, r, q' =>
    let accepted := data.take (q.free - offset)
    r = .written (if q.free ≤ offset then none else some accepted.length) ∧
      q'.Is q.capacity q.bytes q.tail (overwrite q.written (q.tail + offset) accepted)
  | .consumeReadData n, r, q' => r = .done ∧ q'.Is q.capacity (q.bytes.drop n) q.tail q.written
  | .consumeWriteBuffer n, r, q' =>
    ∃ l, l.length = n ∧ (∀ i < n, ∀ byte, q.written (q.tail + i) = some byte → l[i]? = some byte) ∧
      r = .done ∧ q'.Is q.capacity (q.bytes ++ l) (q.tail + n) q.written
  | .getReadData, r, q' => ∃ l, l <+: q.bytes ∧ r = .data (some l) ∧ q' = q
  | .setCapacity size, r, q' =>
    if size < q.bytes.length then r = .accepted false ∧ q' = q
    else r = .accepted true ∧
      q'.Is size q.bytes q.tail (if size = q.capacity then q.written else fun _ => none)

end ByteQueue

/-! ## The buffer -/

namespace FifoBuffer

def step (b : FifoBuffer) : FifoOp → FifoBuffer × FifoResult
  | .read n =>
    match b.read n with
    | none => (b, .data none)
    | some (data, b) => (b, .data (some data))
  | .write data => ((b.write data).1, .written ((b.writeOffset data 0).map Prod.snd))
  | .readOffset n offset => (b, .data (b.readOffset n offset))
  | .writeOffset data offset =>
    match b.writeOffset data offset with
    | none => (b, .written none)
    | some (b, n) => (b, .written (some n))
  | .consumeReadData n => (b.consumeReadData n, .done)
  | .consumeWriteBuffer n => (b.consumeWriteBuffer n, .done)
  | .getReadData => (b, .data (some b.getReadData))
  | .setCapacity size =>
    match b.setCapacity size with
    | none => (b, .accepted false)
    | some b => (b, .accepted true)

/-- The bounds that are asserted; a capacity is a `size_t`, and not 0. Sums of sizes do not overflow. -/
def InBounds (b : FifoBuffer) : FifoOp → Prop
  | .consumeReadData n => n ≤ b.dataLength
  | .consumeWriteBuffer n => n ≤ b.bufferLength - b.dataLength
  | .setCapacity size => 1 ≤ size ∧ size < 18446744073709551616
  | _ => True

def contents (b : FifoBuffer) : List UInt8 := b.buffer.ringRead b.bufferLength b.readPosition b.dataLength

@[simp] theorem contents_length (b : FifoBuffer) : b.contents.length = b.dataLength := Memory.ringRead_length _ _ _ _

/-- The byte that stands `i` places behind the end. -/
def behind (b : FifoBuffer) (i : Nat) : UInt8 := b.buffer.ringAt b.bufferLength b.readPosition (b.dataLength + i)

end FifoBuffer

/-- What was written behind the end still stands there. -/
structure Holds (b : FifoBuffer) (q : ByteQueue) : Prop where
  capacity : q.capacity = b.bufferLength
  bytes : q.bytes = b.contents
  limit : b.bufferLength < 18446744073709551616
  position : b.readPosition < b.bufferLength
  behind : ∀ i byte, q.written (q.tail + i) = some byte → b.behind i = byte

/-! ## What the buffer holds after a change -/

section Changes

variable {b : FifoBuffer} {q : ByteQueue}

theorem Holds.length (h : Holds b q) : q.bytes.length = b.dataLength := by rw [h.bytes, b.contents_length]

theorem Holds.full (h : Holds b q) : b.dataLength ≤ b.bufferLength := by
  rw [← h.length, ← h.capacity]
  exact q.fits

theorem Holds.free (h : Holds b q) : q.free = b.bufferLength - b.dataLength := by
  rw [ByteQueue.free, h.capacity, h.length]

theorem overwrite_eq_some {written : Nat → Option UInt8} {p a : Nat} {data : List UInt8} {byte : UInt8}
    (h : ByteQueue.overwrite written p data a = some byte) :
    (p ≤ a ∧ a < p + data.length) ∧ data[a - p]? = some byte ∨
      ¬ (p ≤ a ∧ a < p + data.length) ∧ written a = some byte := by
  unfold ByteQueue.overwrite at h
  split at h
  · next hin => exact .inl ⟨hin, h⟩
  · next hout => exact .inr ⟨hout, h⟩

/-- `n` bytes leave at the front. -/
theorem Holds.drop (h : Holds b q) {n : Nat} (hn : n ≤ b.dataLength) :
    ∃ q' : ByteQueue, q'.Is q.capacity (q.bytes.drop n) q.tail q.written ∧
      Holds { b with readPosition := (b.readPosition + n) % b.bufferLength, dataLength := b.dataLength - n } q' := by
  have hlength := h.length
  have hfull := h.full
  refine ⟨{ q with
    bytes := q.bytes.drop n
    fits := by rw [List.length_drop]; exact Nat.le_trans (Nat.sub_le _ _) q.fits
    inside := fun p byte hp => by
      have hinside := q.inside p byte hp
      rw [List.length_drop]
      omega }, ⟨rfl, rfl, rfl, rfl⟩, ?_⟩
  constructor
  · exact h.capacity
  · change q.bytes.drop n = _
    rw [h.bytes]
    unfold FifoBuffer.contents
    dsimp only
    rw [Memory.ringRead_drop, Memory.ringRead_mod]
  · exact h.limit
  · exact Nat.mod_lt _ (Nat.lt_of_le_of_lt (Nat.zero_le _) h.position)
  · intro i byte hi
    have hbehind := h.behind i byte hi
    unfold FifoBuffer.behind at hbehind ⊢
    dsimp only
    rw [Memory.ringAt_mod, Memory.ringAt_add, ← hbehind]
    congr 1
    omega

/-- Bytes are written behind the end. -/
theorem Holds.overwrite (h : Holds b q) {data : List UInt8} (offset : Nat)
    (hoffset : b.dataLength + offset < b.bufferLength) (hdata : b.dataLength + offset + data.length ≤ b.bufferLength) :
    ∃ q' : ByteQueue, q'.Is q.capacity q.bytes q.tail (ByteQueue.overwrite q.written (q.tail + offset) data) ∧
      Holds { b with buffer :=
        b.buffer.ringWrite b.bufferLength ((b.readPosition + (b.dataLength + offset)) % b.bufferLength) data } q' := by
  have hlength := h.length
  have hcapacity := h.capacity
  have hwrite {i : Nat} (hi : i < b.bufferLength) :=
    Memory.ringAt_write b.buffer h.position hoffset hdata hi
  refine ⟨{ q with
    written := ByteQueue.overwrite q.written (q.tail + offset) data
    inside := fun p byte hp => by
      rcases overwrite_eq_some hp with ⟨hin, -⟩ | ⟨-, hold⟩
      · omega
      · exact q.inside p byte hold }, ⟨rfl, rfl, rfl, rfl⟩, ?_⟩
  constructor
  · exact hcapacity
  · change q.bytes = _
    rw [h.bytes]
    refine (Memory.ringRead_congr fun i hi => ?_).symm
    rw [hwrite (by omega), if_neg (by omega)]
  · exact h.limit
  · exact h.position
  · intro i byte hi
    change ByteQueue.overwrite q.written (q.tail + offset) data (q.tail + i) = some byte at hi
    unfold FifoBuffer.behind
    rcases overwrite_eq_some hi with ⟨hin, hbyte⟩ | ⟨hout, hold⟩
    · have hindex : b.dataLength + i - (b.dataLength + offset) = q.tail + i - (q.tail + offset) := by omega
      dsimp only
      rw [hwrite (by omega), if_pos (by omega), hindex, List.getD_eq_getElem?_getD, hbyte, Option.getD_some]
    · have hinside := q.inside _ byte hold
      have hbehind := h.behind i byte hold
      dsimp only
      rw [hwrite (by omega), if_neg (by omega)]
      exact hbehind

/-- `n` bytes behind the end become readable. -/
theorem Holds.extend (h : Holds b q) {n : Nat} (hn : b.dataLength + n ≤ b.bufferLength) :
    ∃ (l : List UInt8) (q' : ByteQueue), l.length = n ∧
      (∀ i < n, ∀ byte, q.written (q.tail + i) = some byte → l[i]? = some byte) ∧
      q'.Is q.capacity (q.bytes ++ l) (q.tail + n) q.written ∧ Holds { b with dataLength := b.dataLength + n } q' := by
  have hlength := h.length
  have hcapacity := h.capacity
  have hl := Memory.ringRead_length b.buffer b.bufferLength (b.readPosition + b.dataLength) n
  refine ⟨b.buffer.ringRead b.bufferLength (b.readPosition + b.dataLength) n, { q with
    bytes := q.bytes ++ b.buffer.ringRead b.bufferLength (b.readPosition + b.dataLength) n
    tail := q.tail + n
    fits := by rw [List.length_append, hl]; omega
    inside := fun p byte hp => by
      have hinside := q.inside p byte hp
      rw [List.length_append, hl]
      omega }, hl, ?_, ⟨rfl, rfl, rfl, rfl⟩, ?_⟩
  · intro i hi byte hwritten
    rw [Memory.ringRead_getElem? _ _ _ hi, ← h.behind i byte hwritten, Memory.ringAt_add]
    rfl
  · constructor
    · exact hcapacity
    · change q.bytes ++ _ = _
      rw [h.bytes]
      exact (Memory.ringRead_add _ _ _ _ _).symm
    · exact h.limit
    · exact h.position
    · intro i byte hi
      change q.written (q.tail + n + i) = some byte at hi
      rw [Nat.add_assoc] at hi
      rw [← h.behind (n + i) byte hi]
      unfold FifoBuffer.behind
      dsimp only
      rw [Nat.add_assoc]

/-- A new array holds the same bytes. What stood behind them is not copied. -/
theorem Holds.resize (h : Holds b q) {size : Nat} (hsize : b.dataLength ≤ size) (hpos : 1 ≤ size)
    (hlimit : size < 18446744073709551616) {buffer : Memory} (hbuffer : buffer.read 0 b.dataLength = b.contents) :
    ∃ q' : ByteQueue, q'.Is size q.bytes q.tail (fun _ => none) ∧
      Holds { b with buffer := buffer, bufferLength := size, readPosition := 0 } q' := by
  refine ⟨{ q with
    capacity := size
    written := fun _ => none
    fits := by rw [h.length]; exact hsize
    inside := fun _ _ hp => by cases hp }, ⟨rfl, rfl, rfl, rfl⟩, ?_⟩
  constructor
  · rfl
  · change q.bytes = _
    rw [h.bytes, ← hbuffer]
    exact (Memory.ringRead_plain (by rw [Nat.zero_add]; exact hsize)).symm
  · exact hlimit
  · exact hpos
  · intro i byte hi
    cases hi

end Changes

/-! ## What the operations compute -/

namespace FifoBuffer

variable {b : FifoBuffer}

/-- A slice of the contents. -/
theorem readOffset_eq (hposition : b.readPosition < b.bufferLength) (hfull : b.dataLength ≤ b.bufferLength)
    (bytes offset : Nat) : b.readOffset bytes offset =
      if b.dataLength ≤ offset then none else some ((b.contents.drop offset).take bytes) := by
  unfold readOffset
  by_cases hend : b.dataLength ≤ offset
  · rw [if_pos hend, if_pos hend]
  · have hmod := Nat.mod_lt (b.readPosition + offset) (Nat.lt_of_le_of_lt (Nat.zero_le _) hposition)
    have hslice := Memory.read_wrapped b.buffer hmod (show min bytes (b.dataLength - offset) ≤ b.bufferLength by omega)
    rw [Memory.ringRead_mod] at hslice
    rw [if_neg hend, if_neg hend]
    unfold contents
    rw [Memory.ringRead_drop, Memory.ringRead_take]
    exact congrArg some hslice

theorem read_eq (hposition : b.readPosition < b.bufferLength) (hfull : b.dataLength ≤ b.bufferLength) (bytes : Nat) :
    b.read bytes = if b.dataLength = 0 then none else
      some (b.contents.take bytes, { b with
        readPosition := (b.readPosition + min bytes b.dataLength) % b.bufferLength
        dataLength := b.dataLength - min bytes b.dataLength }) := by
  unfold read
  rw [readOffset_eq hposition hfull, List.drop_zero]
  by_cases hempty : b.dataLength = 0
  · rw [if_pos (by omega), if_pos hempty]
    rfl
  · rw [if_neg (by omega), if_neg hempty]
    simp only [Option.bind_eq_bind, Option.bind_some, List.length_take, contents_length]

/-- The two copies are a write to the ring. -/
theorem writeOffset_eq (b : FifoBuffer) (data : List UInt8) (offset : Nat) : b.writeOffset data offset =
    if b.bufferLength ≤ b.dataLength + offset then none
    else
      let accepted := data.take (b.bufferLength - b.dataLength - offset)
      let writePosition := (b.readPosition + (b.dataLength + offset)) % b.bufferLength
      some ({ b with buffer := b.buffer.ringWrite b.bufferLength writePosition accepted }, accepted.length) := by
  unfold writeOffset Memory.ringWrite
  by_cases hfull : b.bufferLength ≤ b.dataLength + offset
  · rw [if_pos hfull, if_pos hfull]
  · rw [if_neg hfull, if_neg hfull, ← Nat.add_assoc]
    dsimp only
    generalize (b.readPosition + b.dataLength + offset) % b.bufferLength = w
    generalize b.bufferLength - b.dataLength - offset = room
    have hcopy : data.take (min data.length room) = data.take room := by
      rw [Nat.min_comm, ← List.take_take, List.take_length]
    have hlength : min data.length room = (data.take room).length := by rw [List.length_take, Nat.min_comm]
    have htail : data.take (min (min data.length room) (b.bufferLength - w)) =
        (data.take room).take (b.bufferLength - w) := by
      rw [Nat.min_comm, ← List.take_take, hcopy]
    have hfront : (data.take room).drop (min (data.take room).length (b.bufferLength - w)) =
        (data.take room).drop (b.bufferLength - w) := by
      by_cases hlong : b.bufferLength - w ≤ (data.take room).length
      · rw [Nat.min_eq_right hlong]
      · rw [Nat.min_eq_left (Nat.le_of_not_le hlong), List.drop_length, List.drop_eq_nil_of_le (Nat.le_of_not_le hlong)]
    rw [htail, hcopy, hlength, hfront]

/-- The new array begins with the contents. -/
theorem setCapacity_eq (hposition : b.readPosition < b.bufferLength) (hfull : b.dataLength ≤ b.bufferLength)
    (size : Nat) :
    ∃ buffer : Memory, buffer.read 0 b.dataLength = b.contents ∧ b.setCapacity size =
      if size < b.dataLength then none
      else if size = b.bufferLength then some b
      else some { b with buffer := buffer, bufferLength := size, readPosition := 0 } := by
  refine ⟨_, ?_, rfl⟩
  generalize htailCopy : min b.dataLength (b.bufferLength - b.readPosition) = tailCopy
  have hslice := Memory.read_wrapped b.buffer hposition hfull
  have hcopies := Memory.read_memcpy_append (fun _ => 0) 0 (b.buffer.read b.readPosition tailCopy)
    (b.buffer.read 0 (b.dataLength - tailCopy))
  have hsum : tailCopy + (b.dataLength - tailCopy) = b.dataLength := by omega
  rw [htailCopy] at hslice
  rw [Memory.read_length, Memory.read_length, Nat.zero_add, hsum, hslice] at hcopies
  exact hcopies

theorem getReadData_prefix (hposition : b.readPosition < b.bufferLength) : b.getReadData <+: b.contents := by
  have hprefix {n : Nat} (hn : n ≤ b.dataLength) (hend : b.readPosition + n ≤ b.bufferLength) :
      b.buffer.read b.readPosition n <+: b.contents := by
    unfold contents
    rw [← Memory.ringRead_plain hend, ← Nat.min_eq_left hn, ← Memory.ringRead_take]
    exact List.take_prefix _ _
  unfold getReadData
  by_cases hwrapped : b.readPosition + b.dataLength ≤ b.bufferLength
  · rw [if_pos hwrapped]
    exact hprefix (Nat.le_refl _) hwrapped
  · rw [if_neg hwrapped]
    exact hprefix (by omega) (by omega)

end FifoBuffer

/-! ## Steps -/

section Steps

variable {b : FifoBuffer} {q : ByteQueue}

theorem Holds.read (h : Holds b q) (n : Nat) :
    ∃ q', q.Step (.read n) (b.step (.read n)).2 q' ∧ Holds (b.step (.read n)).1 q' := by
  have hlength := h.length
  have hread := b.read_eq h.position h.full n
  by_cases hempty : b.dataLength = 0
  · have hnil : q.bytes = [] := List.length_eq_zero_iff.1 (hlength.trans hempty)
    rw [if_pos hempty] at hread
    refine ⟨q, ⟨?_, rfl, ?_, rfl, rfl⟩, ?_⟩
    · rw [if_pos hnil, FifoBuffer.step, hread]
    · rw [hnil, List.drop_nil]
    · rw [FifoBuffer.step, hread]
      exact h
  · have hne : q.bytes ≠ [] := fun hnil => hempty (by rw [← hlength, hnil]; rfl)
    have hdrop : q.bytes.drop (min n b.dataLength) = q.bytes.drop n := by
      by_cases hall : n ≤ b.dataLength
      · rw [Nat.min_eq_left hall]
      · rw [Nat.min_eq_right (by omega), List.drop_eq_nil_of_le (by omega), List.drop_eq_nil_of_le (by omega)]
    obtain ⟨q', his, hholds⟩ := h.drop (Nat.min_le_right n b.dataLength)
    rw [if_neg hempty] at hread
    rw [hdrop] at his
    refine ⟨q', ⟨?_, his⟩, ?_⟩
    · rw [if_neg hne, FifoBuffer.step, hread, h.bytes]
    · rw [FifoBuffer.step, hread]
      exact hholds

/-- Nothing is accepted. -/
theorem overwrite_nil (written : Nat → Option UInt8) (p : Nat) : ByteQueue.overwrite written p [] = written := by
  funext a
  exact if_neg (by rw [List.length_nil]; omega)

theorem Holds.writeOffset (h : Holds b q) (data : List UInt8) (offset : Nat) :
    ∃ q', q.Step (.writeOffset data offset) (b.step (.writeOffset data offset)).2 q' ∧
      Holds (b.step (.writeOffset data offset)).1 q' := by
  have hlength := h.length
  have hfree := h.free
  have hwrite := b.writeOffset_eq data offset
  by_cases hfull : b.bufferLength ≤ b.dataLength + offset
  · have hnone : q.free - offset = 0 := by omega
    rw [if_pos hfull] at hwrite
    refine ⟨q, ⟨?_, rfl, rfl, rfl, ?_⟩, ?_⟩
    · rw [if_pos (by omega), FifoBuffer.step, hwrite]
    · rw [hnone, List.take_zero, overwrite_nil]
    · rw [FifoBuffer.step, hwrite]
      exact h
  · have haccepted : b.dataLength + offset + (data.take (b.bufferLength - b.dataLength - offset)).length ≤
        b.bufferLength := by
      rw [List.length_take]
      omega
    obtain ⟨q', his, hholds⟩ := h.overwrite offset (by omega) haccepted
    rw [if_neg hfull] at hwrite
    rw [← hfree] at his hholds hwrite
    refine ⟨q', ⟨?_, his⟩, ?_⟩
    · rw [if_neg (by omega), FifoBuffer.step, hwrite]
    · rw [FifoBuffer.step, hwrite]
      exact hholds

/-- A write is a write at the end, the bytes of which become readable. -/
theorem Holds.write (h : Holds b q) (data : List UInt8) :
    ∃ q', q.Step (.write data) (b.step (.write data)).2 q' ∧ Holds (b.step (.write data)).1 q' := by
  have hlength := h.length
  have hfree := h.free
  have hwrite := b.writeOffset_eq data 0
  by_cases hfull : b.bufferLength ≤ b.dataLength
  · have hnone : q.free = 0 := by omega
    rw [Nat.add_zero, if_pos hfull] at hwrite
    refine ⟨q, ⟨?_, rfl, ?_, ?_, ?_⟩, ?_⟩
    · rw [if_pos hnone, FifoBuffer.step, hwrite]
      rfl
    · rw [hnone, List.take_zero, List.append_nil]
    · rw [hnone, List.take_zero]
      rfl
    · rw [hnone, List.take_zero, overwrite_nil]
    · rw [FifoBuffer.step, FifoBuffer.write, hwrite]
      exact h
  · have haccepted : b.dataLength + 0 + (data.take (b.bufferLength - b.dataLength)).length ≤ b.bufferLength := by
      rw [List.length_take]
      omega
    obtain ⟨q₁, ⟨hcapacity₁, hbytes₁, htail₁, hwritten₁⟩, hholds₁⟩ := h.overwrite 0 (by omega) haccepted
    obtain ⟨l, q', hl, hbytes, his, hholds⟩ := hholds₁.extend haccepted
    rw [if_neg (by omega), Nat.sub_zero] at hwrite
    rw [← hfree] at hwrite hl hbytes his hholds hwritten₁
    -- the bytes that become readable are those that were just written
    have haccept : l = data.take q.free := by
      apply List.ext_getElem?
      intro i
      by_cases hi : i < (data.take q.free).length
      · have hwritten : q₁.written (q₁.tail + i) = some ((data.take q.free)[i]) := by
          rw [hwritten₁, htail₁, Nat.add_zero, ByteQueue.overwrite, if_pos (by omega), Nat.add_sub_cancel_left,
            List.getElem?_eq_getElem hi]
        rw [hbytes i hi _ hwritten, List.getElem?_eq_getElem hi]
      · rw [List.getElem?_eq_none (by omega), List.getElem?_eq_none (by omega)]
    rw [haccept, hbytes₁, hcapacity₁, htail₁, hwritten₁, Nat.add_zero] at his
    refine ⟨q', ⟨?_, his⟩, ?_⟩
    · rw [if_neg (by omega), FifoBuffer.step, hwrite]
      rfl
    · rw [FifoBuffer.step, FifoBuffer.write, hwrite]
      exact hholds

theorem Holds.setCapacity (h : Holds b q) {size : Nat} (hpos : 1 ≤ size) (hlimit : size < 18446744073709551616) :
    ∃ q', q.Step (.setCapacity size) (b.step (.setCapacity size)).2 q' ∧ Holds (b.step (.setCapacity size)).1 q' := by
  have hlength := h.length
  have hcapacity := h.capacity
  obtain ⟨buffer, hbuffer, hset⟩ := b.setCapacity_eq h.position h.full size
  by_cases hsmall : size < b.dataLength
  · rw [if_pos hsmall] at hset
    refine ⟨q, ?_, ?_⟩
    · rw [ByteQueue.Step, hlength, if_pos hsmall, FifoBuffer.step, hset]
      exact ⟨rfl, rfl⟩
    · rw [FifoBuffer.step, hset]
      exact h
  rw [if_neg hsmall] at hset
  by_cases hsame : size = b.bufferLength
  · rw [if_pos hsame] at hset
    refine ⟨q, ?_, ?_⟩
    · rw [ByteQueue.Step, hlength, if_neg hsmall, FifoBuffer.step, hset, if_pos (hsame.trans hcapacity.symm)]
      exact ⟨rfl, hcapacity.trans hsame.symm, rfl, rfl, rfl⟩
    · rw [FifoBuffer.step, hset]
      exact h
  · obtain ⟨q', his, hholds⟩ := h.resize (Nat.not_lt.1 hsmall) hpos hlimit hbuffer
    rw [if_neg hsame] at hset
    refine ⟨q', ?_, ?_⟩
    · rw [ByteQueue.Step, hlength, if_neg hsmall, FifoBuffer.step, hset, if_neg (by omega)]
      exact ⟨rfl, his⟩
    · rw [FifoBuffer.step, hset]
      exact hholds

/-- Every operation does what it may do to a queue. -/
theorem Holds.step (h : Holds b q) {op : FifoOp} (hop : b.InBounds op) :
    ∃ q', q.Step op (b.step op).2 q' ∧ Holds (b.step op).1 q' := by
  have hlength := h.length
  cases op with
  | read n => exact h.read n
  | write data => exact h.write data
  | readOffset n offset =>
    refine ⟨q, ⟨?_, rfl⟩, h⟩
    rw [FifoBuffer.step, b.readOffset_eq h.position h.full, hlength, h.bytes]
  | writeOffset data offset => exact h.writeOffset data offset
  | consumeReadData n =>
    obtain ⟨q', his, hholds⟩ := h.drop hop
    have hsub : szSub b.dataLength n = b.dataLength - n :=
      szSub_eq hop (Nat.lt_of_le_of_lt h.full h.limit)
    refine ⟨q', ⟨rfl, his⟩, ?_⟩
    rw [FifoBuffer.step, FifoBuffer.consumeReadData, hsub]
    exact hholds
  | consumeWriteBuffer n =>
    have hfull := h.full
    have hroom : n ≤ b.bufferLength - b.dataLength := hop
    obtain ⟨l, q', hl, hbytes, his, hholds⟩ := h.extend (n := n) (by omega)
    exact ⟨q', ⟨l, hl, hbytes, rfl, his⟩, hholds⟩
  | getReadData =>
    refine ⟨q, ⟨b.getReadData, ?_, rfl, rfl⟩, h⟩
    rw [h.bytes]
    exact b.getReadData_prefix h.position
  | setCapacity size => exact h.setCapacity hop.1 hop.2

end Steps

theorem empty_holds {size : Nat} (hpos : 1 ≤ size) (hlimit : size < 18446744073709551616) :
    Holds (FifoBuffer.create size) (ByteQueue.empty size) :=
  ⟨rfl, rfl, hlimit, hpos, fun _ _ h => by cases h⟩

/-- In a run within the bounds the buffer returns what the queue allows, and it holds the queue's bytes in the end. -/
theorem fifoBuffer_refines (size : Nat) (ops : List FifoOp) (hpos : 1 ≤ size) (hlimit : size < 18446744073709551616)
    (hops : Machine.Meets FifoBuffer.step FifoBuffer.InBounds (FifoBuffer.create size) ops) :
    ∃ q, Machine.Allowed ByteQueue.Step (ByteQueue.empty size) ops
        (Machine.trace FifoBuffer.step (FifoBuffer.create size) ops) q ∧
      Holds (Machine.run FifoBuffer.step (FifoBuffer.create size) ops) q :=
  Machine.exists_allowed_of_meets (fun _ _ _ h hop => h.step hop) (empty_holds hpos hlimit) hops

/-- Two bytes are written in front of a third that was there before them; then the end of the buffer is passed. -/
theorem fifoBuffer_refines_ahead :
    let ops : List FifoOp :=
      [.writeOffset [3] 2, .write [1, 2], .consumeWriteBuffer 1, .read 2, .write [4, 5, 6], .read 9]
    ∃ q, Machine.Allowed ByteQueue.Step (ByteQueue.empty 4) ops
        (Machine.trace FifoBuffer.step (FifoBuffer.create 4) ops) q ∧
      Holds (Machine.run FifoBuffer.step (FifoBuffer.create 4) ops) q :=
  fifoBuffer_refines 4 _ (by decide) (by decide)
    ⟨trivial, trivial, by unfold FifoBuffer.InBounds; decide, trivial, trivial, trivial, trivial⟩

end WebRtc.Tcp
