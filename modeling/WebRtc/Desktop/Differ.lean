import Mathlib.Logic.Function.Basic
import WebRtc.Desktop.Region
import WebRtc.Lib.Memory

/-!
# The differ (`desktop_capture/differ.cc`)

| here | there |
| --- | --- |
| `Differ`                       | the class; the sizes of `diff_info_` its constructor computes (:20) are functions |
| `blockDifference`              | `BlockDifference_C` of `differ_block.cc`, which the other versions stand in for |
| `partialBlocksEqual`           | `PartialBlocksEqual` (:123) |
| `markBlocks`, `markRow`, `markRows`, `markDirtyBlocks` | the loops of `MarkDirtyBlocks` (:49) and the function |
| `mergeRight`, `mergeBelow`, `mergeBlock`, `mergeBlocks` | the loops of `MergeBlocks` (:136) and the function |
| `calcDirtyRegion`              | `CalcDirtyRegion` (:38) |

A pointer into a frame or into `diff_info_` is the offset from its start. None is returned where a byte outside
of the frame or of `diff_info_` is read or written, and where a loop has not ended after as many rounds as it is
given. Coordinates do not overflow.
-/

namespace WebRtc.Desktop

def kBlockSize : Nat := 32
def kBytesPerPixel : Nat := 4

structure Differ where
  width : Nat
  height : Nat
  bytesPerPixel : Nat
  bytesPerRow : Nat
deriving DecidableEq, Repr

/-- `diff_info_`. -/
abbrev DiffInfo := Nat → Bool

namespace Differ

variable (d : Differ) (prev curr : Memory)

/-- One additional column as a boundary on the right, one additional row on the bottom. -/
def diffInfoWidth : Nat := (d.width + kBlockSize - 1) / kBlockSize + 1
def diffInfoHeight : Nat := (d.height + kBlockSize - 1) / kBlockSize + 1
def diffInfoSize : Nat := d.diffInfoWidth * d.diffInfoHeight

/-- The bytes of a frame, from its first pixel to its last. -/
def frameSize : Nat := (d.height - 1) * d.bytesPerRow + d.width * d.bytesPerPixel

def load (info : DiffInfo) (i : Nat) : Option Bool := if i < d.diffInfoSize then some (info i) else none

def store (info : DiffInfo) (i : Nat) (value : Bool) : Option DiffInfo :=
  if i < d.diffInfoSize then some (Function.update info i value) else none

/-! ## Comparing blocks -/

/-- `memcmp(prev + p, curr + p, n) == 0`. -/
def sameBytes (p n : Nat) : Option Bool :=
  if p + n ≤ d.frameSize then some (prev.read p n == curr.read p n) else none

/-- The first rows of a block, up to one that differs. -/
def sameRows (widthBytes : Nat) : Nat → Nat → Option Bool
  | 0, _ => some true
  | rows + 1, p => do
    if ← d.sameBytes prev curr p widthBytes then sameRows widthBytes rows (p + d.bytesPerRow) else return false

def blockDifference (p : Nat) : Option Bool := do
  return !(← d.sameRows prev curr (kBlockSize * kBytesPerPixel) kBlockSize p)

def partialBlocksEqual (p width height : Nat) : Option Bool :=
  d.sameRows prev curr (width * d.bytesPerPixel) height p

/-! ## Marking -/

/-- `x_full_blocks` blocks beside each other, from the one at `block` on; `changed` compares one of them. -/
def markBlocks (changed : Nat → Option Bool) : Nat → Nat → Nat → DiffInfo → Option (Nat × Nat × DiffInfo)
  | 0, block, i, info => some (block, i, info)
  | n + 1, block, i, info => do
    let info ← d.store info i (← changed block)
    markBlocks changed n (block + d.bytesPerPixel * kBlockSize) (i + 1) info

/-- A row of full blocks and, behind them, of a partial one, if there is a partial column. -/
def markRow (changed changedLast : Nat → Option Bool) (rowStart infoRowStart : Nat) (info : DiffInfo) :
    Option DiffInfo := do
  let xFullBlocks := d.width / kBlockSize
  let partialColumnWidth := d.width - xFullBlocks * kBlockSize
  let (block, i, info) ← d.markBlocks changed xFullBlocks rowStart infoRowStart info
  if partialColumnWidth ≠ 0 then d.store info i (← changedLast block) else return info

def markRows (changed changedLast : Nat → Option Bool) : Nat → Nat → Nat → DiffInfo → Option (Nat × Nat × DiffInfo)
  | 0, rowStart, infoRowStart, info => some (rowStart, infoRowStart, info)
  | n + 1, rowStart, infoRowStart, info => do
    let info ← d.markRow changed changedLast rowStart infoRowStart info
    let blockYStride := d.width * d.bytesPerPixel * kBlockSize
    markRows changed changedLast n (rowStart + blockYStride) (infoRowStart + d.diffInfoWidth) info

def markDirtyBlocks : Option DiffInfo := do
  let xFullBlocks := d.width / kBlockSize
  let yFullBlocks := d.height / kBlockSize
  let partialColumnWidth := d.width - xFullBlocks * kBlockSize
  let partialRowHeight := d.height - yFullBlocks * kBlockSize
  let partialChanged := fun width height block => (d.partialBlocksEqual prev curr block width height).map not
  let (rowStart, infoRowStart, info) ← d.markRows (d.blockDifference prev curr)
    (partialChanged partialColumnWidth kBlockSize) yFullBlocks 0 0 fun _ => false
  if partialRowHeight ≠ 0 then
    d.markRow (partialChanged kBlockSize partialRowHeight) (partialChanged partialColumnWidth partialRowHeight)
      rowStart infoRowStart info
  else return info

/-! ## Merging -/

/-- Group with blocks to the right. -/
def mergeRight : Nat → Nat → Nat → DiffInfo → Option (Nat × DiffInfo)
  | 0, _, _, _ => none
  | fuel + 1, right, width, info => do
    if ← d.load info right then mergeRight fuel (right + 1) (width + 1) (← d.store info right false)
    else return (width, info)

/-- Are all `width` blocks from `right` on marked? -/
def foundNewRow (info : DiffInfo) : Nat → Nat → Option Bool
  | 0, _ => some true
  | n + 1, right => do
    let marked ← d.load info right
    return marked && (← foundNewRow info n (right + 1))

def eraseRow : Nat → Nat → DiffInfo → Option DiffInfo
  | 0, _, info => some info
  | n + 1, right, info => do eraseRow n (right + 1) (← d.store info right false)

/-- Group with blocks below. -/
def mergeBelow (width : Nat) : Nat → Nat → Nat → DiffInfo → Option (Nat × DiffInfo)
  | 0, _, _, _ => none
  | fuel + 1, bottom, height, info => do
    let bottom := bottom + d.diffInfoWidth
    if ← d.foundNewRow info width bottom then
      mergeBelow width fuel bottom (height + 1) (← d.eraseRow width bottom info)
    else return (height, info)

/-- The rectangle of a group of blocks, clipped to the screen. -/
def rectOf (x y width height : Nat) : DesktopRect :=
  let left := x * kBlockSize
  let top := y * kBlockSize
  let width := if d.width < left + width * kBlockSize then d.width - left else width * kBlockSize
  let height := if d.height < top + height * kBlockSize then d.height - top else height * kBlockSize
  ⟨left, top, left + width, top + height⟩

/-- The body of the loop over the blocks of a row. -/
def mergeBlock (y : Nat) (s : DiffInfo × DesktopRegion) (x : Nat) : Option (DiffInfo × DesktopRegion) := do
  let i := y * d.diffInfoWidth + x
  if ← d.load s.1 i then
    let info ← d.store s.1 i false
    let (width, info) ← d.mergeRight d.diffInfoWidth (i + 1) 1 info
    let (height, info) ← d.mergeBelow width d.diffInfoHeight i 1 info
    let region ← s.2.addRect (d.rectOf x y width height)
    return (info, region)
  else return s

def mergeBlocks (info : DiffInfo) : Option DesktopRegion := do
  let s ← (List.range d.diffInfoHeight).foldlM
    (fun s y => (List.range d.diffInfoWidth).foldlM (d.mergeBlock y) s) (info, DesktopRegion.create)
  return s.2

def calcDirtyRegion : Option DesktopRegion := do d.mergeBlocks (← d.markDirtyBlocks prev curr)

end Differ
end WebRtc.Desktop
