import Mathlib.Algebra.Group.Defs
import WebRtc.Lib.CInt

/-!
# The ring buffer (`common_audio/ring_buffer.c`)

| here | there |
| --- | --- |
| `RingBuffer`            | `struct RingBuffer` (ring_buffer.c:25); `data` is the allocation, one list entry per element |
| `initBuffer`            | `WebRtc_InitBuffer` (ring_buffer.c:93) |
| `createBuffer`          | `WebRtc_CreateBuffer` (ring_buffer.c:68), the allocation succeeding |
| `getBufferReadRegions`  | `GetBufferReadRegions` (ring_buffer.c:39): the region pointers as the elements they span |
| `readBuffer`            | `WebRtc_ReadBuffer` (ring_buffer.c:112) |
| `writeBuffer`           | `WebRtc_WriteBuffer` (ring_buffer.c:158) |
| `moveReadPtr`           | `WebRtc_MoveReadPtr` (ring_buffer.c:192) |
| `availableRead`         | `WebRtc_available_read` (ring_buffer.c:229) |
| `availableWrite`        | `WebRtc_available_write` (ring_buffer.c:241) |

The code copies `element_size` bytes per element and never looks inside one, so an element is a
value of an arbitrary type with a zero (`memset`). The null checks on `self` and `data` are not
modelled: a null argument returns 0 and touches nothing.
-/

namespace WebRtc

open CInt

/-- `enum Wrap` (ring_buffer.c:20). -/
inductive Wrap
  | sameWrap
  | diffWrap
deriving DecidableEq, Repr

structure RingBuffer (α : Type) where
  readPos : Nat
  writePos : Nat
  elementCount : Nat
  rwWrap : Wrap
  data : List α
deriving DecidableEq, Repr

/-- `memcpy` of all of `src` to `dst + off`. -/
def memcpy {α : Type} (dst : List α) (off : Nat) (src : List α) : List α :=
  dst.take off ++ src ++ dst.drop (off + src.length)

namespace RingBuffer

variable {α : Type}

def availableRead (self : RingBuffer α) : Nat :=
  if self.rwWrap = .sameWrap then szSub self.writePos self.readPos
  else szAdd (szSub self.elementCount self.readPos) self.writePos

def availableWrite (self : RingBuffer α) : Nat :=
  szSub self.elementCount self.availableRead

/-- The number of elements to read and the one or two regions that hold them. -/
def getBufferReadRegions (buf : RingBuffer α) (elementCount : Nat) : Nat × List α × List α :=
  let readableElements := buf.availableRead
  let readElements := if readableElements < elementCount then readableElements else elementCount
  let margin := szSub buf.elementCount buf.readPos
  if readElements > margin then
    (readElements, (buf.data.drop buf.readPos).take margin, buf.data.take (szSub readElements margin))
  else (readElements, (buf.data.drop buf.readPos).take readElements, [])

def moveReadPtr (self : RingBuffer α) (elementCount : Int) : RingBuffer α × Int :=
  let freeElements := i32 self.availableWrite
  let readableElements := i32 self.availableRead
  let elementCount := if elementCount > readableElements then readableElements else elementCount
  let elementCount := if elementCount < i32 (-freeElements) then i32 (-freeElements) else elementCount
  let readPos := i32 (i32 self.readPos + elementCount)
  -- Buffer wrap around. Restart read position and wrap indicator.
  let rwWrap := if readPos > i32 self.elementCount then .sameWrap else self.rwWrap
  let readPos := if readPos > i32 self.elementCount then i32 (readPos - i32 self.elementCount) else readPos
  let rwWrap := if readPos < 0 then .diffWrap else rwWrap
  let readPos := if readPos < 0 then i32 (readPos + i32 self.elementCount) else readPos
  ({ self with readPos := toSize readPos, rwWrap := rwWrap }, elementCount)

/-- What `readBuffer` leaves behind: its return value, the caller's array `data`, and the elements
`*data_ptr` points to when a `data_ptr` was given. -/
structure ReadResult (α : Type) where
  readCount : Nat
  data : List α
  dataPtr : Option (List α)
deriving DecidableEq, Repr

/-- The elements the caller gets: through `data_ptr` if it gave one, else in `data`. -/
def ReadResult.elements (r : ReadResult α) : List α :=
  match r.dataPtr with
  | some p => p
  | none => r.data.take r.readCount

def readBuffer (self : RingBuffer α) (hasDataPtr : Bool) (data : List α) (elementCount : Nat) :
    RingBuffer α × ReadResult α :=
  let r := self.getBufferReadRegions elementCount
  -- Wrap around: both regions go to |data|, and |data_ptr| points there.
  let wrapped := memcpy (memcpy data 0 r.2.1) r.2.1.length r.2.2
  ((self.moveReadPtr (i32 r.1)).1,
    { readCount := r.1
      data := if r.2.2.length > 0 then wrapped else if hasDataPtr then data else memcpy data 0 r.2.1
      dataPtr :=
        if hasDataPtr then some (if r.2.2.length > 0 then wrapped.take r.1 else r.2.1) else none })

/-- `element_count` is the length of the caller's array. -/
def writeBuffer (self : RingBuffer α) (data : List α) : RingBuffer α × Nat :=
  let freeElements := self.availableWrite
  let writeElements := if freeElements < data.length then freeElements else data.length
  let margin := szSub self.elementCount self.writePos
  if writeElements > margin then
    -- Buffer wrap around when writing.
    let n := szSub writeElements margin
    let front := memcpy self.data self.writePos (data.take margin)
    ({ self with data := memcpy front 0 ((data.drop (szSub writeElements n)).take n), writePos := n,
                 rwWrap := .diffWrap }, writeElements)
  else
    ({ self with data := memcpy self.data self.writePos (data.take writeElements),
                 writePos := szAdd self.writePos writeElements }, writeElements)

section Init
variable [Zero α]

def initBuffer (self : RingBuffer α) : RingBuffer α :=
  { self with readPos := 0, writePos := 0, rwWrap := .sameWrap,
              data := List.replicate self.elementCount 0 }

def createBuffer (elementCount : Nat) : Option (RingBuffer α) :=
  if elementCount = 0 then none
  else some (initBuffer ⟨0, 0, elementCount, .sameWrap, []⟩)

end Init

end RingBuffer

end WebRtc
