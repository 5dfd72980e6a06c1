import WebRtc.Lib.LittleEndian
import WebRtc.Lib.Memory

/-!
# Opening a WAV file (`WaveIO.cpp`)

| here | there |
| --- | --- |
| `Opening`, `fread` | `m_head` as its 44 bytes of memory and the position of `m_fp`; `fread` copies at most what is left |
| `scan2Data`        | `Scan2Data` (:183), with a bound on the recursion |
| `openForReading`   | the constructor (:4) for a mode with `'r'` |

`m_head` is not initialised: `initial` is what its memory held before.
-/

namespace WebRtc.Wav

open Bytes

structure Opening where
  head : Memory
  position : Nat

namespace Opening

variable (file : List UInt8)

/-- `fread(&m_head + dst, n, 1, m_fp)`. -/
def fread (dst n : Nat) (s : Opening) : Opening :=
  let data := (file.drop s.position).take n
  { head := s.head.memcpy dst data, position := s.position + data.length }

/-! ## The fields of `m_head` -/

def fmtSize (s : Opening) : Nat := (readLE32 (s.head 16) (s.head 17) (s.head 18) (s.head 19)).toNat

/-- `m_head.data` and `m_head.RawDataFileLength` follow each other: the header of a chunk. -/
def header (s : Opening) (i : Nat) : UInt8 := s.head (36 + i)

end Opening

/-- The bytes of `RIFF` and of the first seven letters of `WAVEfmt_`, and where they stand. -/
def magic : List (Nat × UInt8) :=
  [(0, 0x52), (1, 0x49), (2, 0x46), (3, 0x46), (8, 0x57), (9, 0x41), (10, 0x56), (11, 0x45), (12, 0x66), (13, 0x6d),
    (14, 0x74)]

/-- Both `strcmp` return zero. -/
def recognised (head : Memory) : Bool := magic.all fun p => head p.1 == p.2

/-- The type of a chunk, from its header. -/
def idOf (header : Nat → UInt8) : List UInt8 := [header 0, header 1, header 2, header 3]

/-- Its length, which is an `int32_t`. -/
def lengthOf (header : Nat → UInt8) : Int := (readLE32 (header 4) (header 5) (header 6) (header 7)).toInt32.toInt

/-- `"data"`. -/
def dataID : List UInt8 := [0x64, 0x61, 0x74, 0x61]

namespace Opening

variable (file : List UInt8)

/-- `for(i=0;i<n;i++) fread(&temp,1,1,m_fp)`. -/
def skip : Nat → Nat → Nat
  | 0, position => position
  | n + 1, position => skip n (position + ((file.drop position).take 1).length)

def readChunkHeader (s : Opening) : Opening := (s.fread file 36 4).fread file 40 4

/-- `m_FileStatus` does not change. -/
def scan2Data (mFileStatus : Int) : Nat → Opening → Option Opening
  | 0, _ => none
  | fuel + 1, s =>
    if mFileStatus ≠ 0 then some s
    else if idOf s.header = dataID then some s
    else scan2Data mFileStatus fuel
      (readChunkHeader file { s with position := skip file (lengthOf s.header).toNat s.position })

end Opening

/-- How the constructor ends. -/
inductive Opened where
  /-- `fread` stores more than the 32 bytes of `tmp`. -/
  | overrun (stored : Nat)
  /-- `Scan2Data` has not returned. -/
  | endless
  | opened (mFileStatus : Int) (position : Nat) (head : Memory)

open Opening in
def openForReading (initial : Memory) (file : Option (List UInt8)) (fuel : Nat) : Opened :=
  match file with
  | none => .opened (-2) 0 initial
  | some file =>
    let s := (((Opening.mk initial 0).fread file 0 4).fread file 4 4).fread file 8 8
    if recognised s.head then
      let s := ((((((s.fread file 16 4).fread file 20 2).fread file 22 2).fread file 24 4).fread file 28 4).fread
        file 32 2).fread file 34 2
      let stored := if 16 < s.fmtSize then min (s.fmtSize - 16) (file.length - s.position) else 0
      if 32 < stored then .overrun stored
      else
        match scan2Data file 0 fuel (readChunkHeader file { s with position := s.position + stored }) with
        | none => .endless
        | some s => .opened 0 s.position s.head
    else .opened (-1) s.position s.head

end WebRtc.Wav
