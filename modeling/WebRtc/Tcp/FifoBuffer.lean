import WebRtc.Lib.CInt
import WebRtc.Lib.Memory

/-!
# The buffer between a writer and a reader

| here | there |
| --- | --- |
| `FifoBuffer` | `stream.h:498-559` |
| `setCapacity` | `stream.cc:712-729` |
| `read`, `write` | `stream.cc:747-791` |
| `getReadData` | `stream.cc:799-804` |
| `consumeReadData`, `consumeWriteBuffer`, `getWriteRemaining` | `stream.cc:806-850` |
| `readOffset`, `writeOffset` | `stream.cc:852-899` |

The buffer is not closed. None is `SR_BLOCK`. What a new array holds is not defined in the source; here
it is zeros. Sizes are `size_t`.
-/

namespace WebRtc.Tcp

open CInt

structure FifoBuffer where
  buffer : Memory
  bufferLength : Nat
  dataLength : Nat
  readPosition : Nat

namespace FifoBuffer

def create (size : Nat) : FifoBuffer where
  buffer := fun _ => 0
  bufferLength := size
  dataLength := 0
  readPosition := 0

def getWriteRemaining (b : FifoBuffer) : Nat := szSub b.bufferLength b.dataLength

def setCapacity (b : FifoBuffer) (size : Nat) : Option FifoBuffer :=
  if size < b.dataLength then none
  else if size = b.bufferLength then some b
  else
    let copy := b.dataLength
    let tailCopy := min copy (b.bufferLength - b.readPosition)
    let fresh : Memory := fun _ => 0
    some { b with
      buffer := (fresh.memcpy 0 (b.buffer.read b.readPosition tailCopy)).memcpy tailCopy
        (b.buffer.read 0 (copy - tailCopy))
      bufferLength := size
      readPosition := 0 }

def readOffset (b : FifoBuffer) (bytes offset : Nat) : Option (List UInt8) :=
  if b.dataLength ≤ offset then none
  else
    let readPosition := (b.readPosition + offset) % b.bufferLength
    let copy := min bytes (b.dataLength - offset)
    let tailCopy := min copy (b.bufferLength - readPosition)
    some (b.buffer.read readPosition tailCopy ++ b.buffer.read 0 (copy - tailCopy))

/-- The number of bytes that were written too. -/
def writeOffset (b : FifoBuffer) (data : List UInt8) (offset : Nat) : Option (FifoBuffer × Nat) :=
  if b.bufferLength ≤ b.dataLength + offset then none
  else
    let writePosition := (b.readPosition + b.dataLength + offset) % b.bufferLength
    let copy := min data.length (b.bufferLength - b.dataLength - offset)
    let tailCopy := min copy (b.bufferLength - writePosition)
    let buffer := (b.buffer.memcpy writePosition (data.take tailCopy)).memcpy 0 ((data.take copy).drop tailCopy)
    some ({ b with buffer }, copy)

def read (b : FifoBuffer) (bytes : Nat) : Option (List UInt8 × FifoBuffer) := do
  let data ← b.readOffset bytes 0
  some (data, { b with
    readPosition := (b.readPosition + data.length) % b.bufferLength
    dataLength := b.dataLength - data.length })

def write (b : FifoBuffer) (data : List UInt8) : FifoBuffer × Nat :=
  match b.writeOffset data 0 with
  | none => (b, 0)
  | some (written, copy) => ({ written with dataLength := b.dataLength + copy }, copy)

/-- The bytes that can be read without a copy. -/
def getReadData (b : FifoBuffer) : List UInt8 :=
  b.buffer.read b.readPosition (if b.readPosition + b.dataLength ≤ b.bufferLength then b.dataLength
    else b.bufferLength - b.readPosition)

def consumeReadData (b : FifoBuffer) (size : Nat) : FifoBuffer :=
  { b with
    readPosition := (b.readPosition + size) % b.bufferLength
    dataLength := szSub b.dataLength size }

def consumeWriteBuffer (b : FifoBuffer) (size : Nat) : FifoBuffer := { b with dataLength := b.dataLength + size }

/-! ## Sizes -/

variable {b c : FifoBuffer} {data : List UInt8} {bytes offset n : Nat}

theorem readOffset_length (h : b.readOffset bytes offset = some data) :
    data.length = min bytes (b.dataLength - offset) := by
  rw [readOffset] at h
  split at h
  · cases h
  · simp only [Option.some.injEq] at h
    rw [← h]
    simp only [List.length_append, Memory.read_length]
    omega

theorem readOffset_none : b.readOffset bytes offset = none ↔ b.dataLength ≤ offset := by
  rw [readOffset]
  split <;> simp [*]

theorem writeOffset_size (h : b.writeOffset data offset = some (c, n)) :
    n = min data.length (b.bufferLength - b.dataLength - offset) ∧ c.bufferLength = b.bufferLength ∧
      c.dataLength = b.dataLength ∧ c.readPosition = b.readPosition := by
  rw [writeOffset] at h
  split at h
  · cases h
  · simp only [Option.some.injEq, Prod.mk.injEq] at h
    obtain ⟨rfl, rfl⟩ := h
    exact ⟨rfl, rfl, rfl, rfl⟩

theorem writeOffset_none : b.writeOffset data offset = none ↔ b.bufferLength ≤ b.dataLength + offset := by
  rw [writeOffset]
  split <;> simp [*]

theorem write_size (b : FifoBuffer) (data : List UInt8) :
    (b.write data).2 = min data.length (b.bufferLength - b.dataLength) ∧
      (b.write data).1.bufferLength = b.bufferLength ∧ (b.write data).1.dataLength = b.dataLength +
          (b.write data).2 := by
  cases h : b.writeOffset data 0 with
  | none =>
    have hwrite : b.write data = (b, 0) := by rw [write, h]
    rw [writeOffset_none] at h
    rw [hwrite]
    exact ⟨by omega, rfl, rfl⟩
  | some p =>
    obtain ⟨c, n⟩ := p
    obtain ⟨hn, hlen, -, -⟩ := writeOffset_size h
    rw [write, h]
    exact ⟨hn, hlen, rfl⟩

end FifoBuffer

end WebRtc.Tcp
