import Mathlib.Algebra.Ring.Int.Defs
import Mathlib.Algebra.Ring.Nat
import Mathlib.Data.Int.Basic
import Mathlib.Data.Nat.Notation

/-!
# Desktop regions

| here | there |
| --- | --- |
| `RowSpan`, `Row`, `DesktopRegion` | `desktop_region.h:32-69` |
| `equals` | `desktop_region.cc:58-74` |
| `addRect`, `mergeWithPrecedingRow` | `desktop_region.cc:88-166` |
| `addRegion`, `Iterator` | `desktop_region.cc:168-174, 503-568` |
| `intersect`, `intersectRows` | `desktop_region.cc:176-273` |
| `subtract`, `subtractRows` | `desktop_region.cc:275-368, 478-514` |
| `translate` | `desktop_region.cc:370-396` |
| `addSpanToRow`, `isSpanInRow` | `desktop_region.cc:412-475` |

The map of the rows is the list of its nodes in the order of their keys. An iterator into it is a pair
of lists: the nodes before it, the nearest one first, and those from it on. None is returned where an
assertion fails, where a node would not be inserted at the hint, and where a loop has not ended after as
many rounds as it is given. Coordinates do not overflow.
-/

namespace WebRtc.Desktop

structure DesktopRect where
  left : Int
  top : Int
  right : Int
  bottom : Int
deriving DecidableEq, Repr

def DesktopRect.isEmpty (rect : DesktopRect) : Bool := decide (rect.left ≥ rect.right) ||
    decide (rect.top ≥ rect.bottom)

structure RowSpan where
  left : Int
  right : Int
deriving DecidableEq, Repr

/-- A node of the map, with its key. -/
structure Row where
  key : Int
  top : Int
  bottom : Int
  spans : List RowSpan
deriving DecidableEq, Repr

structure DesktopRegion where
  rows : List Row
deriving DecidableEq, Repr

/-! ## Spans of a row -/

/-- `std::lower_bound` ends at the first span that does not compare as less. -/
def addSpanToRow (spans : List RowSpan) (left right : Int) : Option (List RowSpan) :=
  if spans.getLast?.all fun back => decide (back.right < left) then some (spans ++ [⟨left, right⟩])
  else
    let before := spans.takeWhile fun r => decide (r.right < left)
    let fromStart := spans.dropWhile fun r => decide (r.right < left)
    let overlapping := fromStart.takeWhile fun r => decide (r.left < right + 1)
    let fromEnd := fromStart.dropWhile fun r => decide (r.left < right + 1)
    match fromStart, overlapping.getLast? with
    | [], _ => none
    -- No span is overlapped, at the beginning or elsewhere.
    | _, none => some (before ++ ⟨left, right⟩ :: fromEnd)
    | start :: _, some last => some (before ++ ⟨min left start.left, max right last.right⟩ :: fromEnd)

def isSpanInRow (row : Row) (span : RowSpan) : Bool :=
  match row.spans.dropWhile fun r => decide (r.left < span.left) with
  | [] => false
  | it :: _ => decide (it = span)

def intersectRowsLoop : Nat → List RowSpan → List RowSpan → Option (List RowSpan)
  | _, [], _ => some []
  | _, _, [] => some []
  | 0, _, _ => none
  | fuel + 1, r1 :: t1, r2 :: t2 =>
    -- The first one is the left-most of the two.
    let (it1, rest1, it2, rest2) := if r2.left < r1.left then (r2, t2, r1, t1) else (r1, t1, r2, t2)
    if it1.right ≤ it2.left then intersectRowsLoop fuel rest1 (it2 :: rest2)
    else
      let left := it2.left
      let right := min it1.right it2.right
      if left < right then
        (intersectRowsLoop fuel (if it1.right = right then rest1 else it1 :: rest1)
          (if it2.right = right then rest2 else it2 :: rest2)).map fun output => ⟨left, right⟩ :: output
      else none

def intersectRows (set1 set2 : List RowSpan) : Option (List RowSpan) :=
  if set1 = [] ∨ set2 = [] then none else intersectRowsLoop (set1.length + set2.length) set1 set2

/-- The inner loop: the parts of a span, from a position on, and what is left of the other set. -/
def subtractSpan (right : Int) : Int → List RowSpan → List RowSpan × List RowSpan
  | pos, [] => (if pos < right then [⟨pos, right⟩] else [], [])
  | pos, b :: rest =>
    if b.left < right then
      let part := if pos < b.left then [⟨pos, b.left⟩] else []
      if pos < b.right then
        if right ≤ b.right then (part, b :: rest)
        else (part ++ (subtractSpan right b.right rest).1, (subtractSpan right b.right rest).2)
      else (part ++ (subtractSpan right pos rest).1, (subtractSpan right pos rest).2)
    else (if pos < right then [⟨pos, right⟩] else [], b :: rest)

def subtractRowsLoop : List RowSpan → List RowSpan → List RowSpan
  | [], _ => []
  | a :: rest, setB =>
    if setB.head?.all fun b => decide (a.right < b.left) then a :: subtractRowsLoop rest setB
    else (subtractSpan a.right a.left setB).1 ++ subtractRowsLoop rest (subtractSpan a.right a.left setB).2

def subtractRows (setA setB : List RowSpan) : Option (List RowSpan) :=
  if setA = [] ∨ setB = [] then none else some (subtractRowsLoop setA setB)

/-! ## Rows -/

/-- A node with this key belongs between these. -/
def inserts (done todo : List Row) (key : Int) : Bool :=
  (done.head?.all fun r => decide (r.key < key)) && todo.head?.all fun r => decide (key < r.key)

def newRow (done todo : List Row) (top bottom : Int) : Option (List Row × Row × List Row) :=
  if inserts done todo bottom then some (done, ⟨bottom, top, bottom, []⟩, todo) else none

/-- The row is split at a top that is in the middle of it, and the lower part is gone on with. -/
def splitAbove (top : Int) (done : List Row) (row : Row) : Option (List Row × Row) :=
  if row.top < top then
    if top ≤ row.bottom ∧ inserts done [row] top = true then
      some (⟨top, row.top, top, row.spans⟩ :: done, { row with top })
    else none
  else some (done, row)

/-- The row is split at a bottom that is in the middle of it, and the upper part is gone on with. -/
def splitBelow (top bottom : Int) (done : List Row) (row : Row) (rest : List Row) : Option (Row × List Row) :=
  if bottom < row.bottom then
    if inserts done [row] bottom then some (⟨bottom, top, bottom, row.spans⟩,
      { row with top := bottom } :: rest) else none
  else some (row, rest)

def mergeWithPrecedingRow (done : List Row) (row : Row) : List Row × Row :=
  match done with
  | [] => ([], row)
  | previous :: before =>
    if previous.bottom = row.top ∧ previous.spans = row.spans then (before, { row with top := previous.top })
    else (previous :: before, row)

/-- After a loop the row at the iterator is merged, when it is not at the end. -/
def mergeLast (done todo : List Row) : List Row :=
  match todo with
  | [] => done.reverse
  | row :: rest => (mergeWithPrecedingRow done row).1.reverse ++ (mergeWithPrecedingRow done row).2 :: rest

/-- `upper_bound`. -/
def upperBound (rows : List Row) (key : Int) : List Row × List Row :=
  ((rows.takeWhile fun r => decide (r.key ≤ key)).reverse, rows.dropWhile fun r => decide (r.key ≤ key))

namespace DesktopRegion

def create : DesktopRegion := ⟨[]⟩

def equalsLoop : List Row → List Row → Bool
  | [], rest => rest.isEmpty
  | _ :: _, [] => false
  | it1 :: rest1, it2 :: rest2 =>
    if it1.key ≠ it2.key ∨ it1.top ≠ it2.top ∨ it1.bottom ≠ it2.bottom ∨ it1.spans ≠ it2.spans then false
    else equalsLoop rest1 rest2

def equals (r region : DesktopRegion) : Bool := equalsLoop r.rows region.rows

/-- The row from which a rectangle is added at this top: a new one when there is none at it. -/
def openRow (rect : DesktopRect) (top : Int) (done todo : List Row) : Option (List Row × Row × List Row) :=
  match todo with
  | [] => newRow done [] top rect.bottom
  | row :: rest =>
    if top < row.top then newRow done (row :: rest) top (if row.top < rect.bottom then row.top else rect.bottom)
    else (splitAbove top done row).map fun (done, row) => (done, row, rest)

def addRectLoop (rect : DesktopRect) : Nat → List Row → List Row → Int → Option (List Row × List Row)
  | fuel, done, todo, top =>
    if rect.bottom ≤ top then some (done, todo)
    else match fuel with
      | 0 => none
      | fuel + 1 => do
        let (done, row, rest) ← openRow rect top done todo
        let (row, rest) ← splitBelow top rect.bottom done row rest
        let spans ← addSpanToRow row.spans rect.left rect.right
        let (done, row) := mergeWithPrecedingRow done { row with spans }
        addRectLoop rect fuel (row :: done) rest row.bottom

def addRect (r : DesktopRegion) (rect : DesktopRect) : Option DesktopRegion :=
  if rect.isEmpty then some r
  else do
    let (done, todo) ← addRectLoop rect (rect.bottom - rect.top).toNat (upperBound r.rows rect.top).1
      (upperBound r.rows rect.top).2 rect.top
    some ⟨mergeLast done todo⟩

def addRects (r : DesktopRegion) (rects : List DesktopRect) : Option DesktopRegion := rects.foldlM addRect r

end DesktopRegion

/-! ## Iterating over rectangles -/

/-- The rows from the current one on and the spans of it from the current one on. -/
structure Iterator where
  row : List Row
  previousRow : Option Row
  rowSpan : List RowSpan
  rect : DesktopRect
deriving DecidableEq, Repr

namespace Iterator

def isAtEnd (it : Iterator) : Bool := it.row.isEmpty

/-- How far down rows with the same span follow one another. -/
def mergedBottom (span : RowSpan) : Row → List Row → Int
  | row, [] => row.bottom
  | row, next :: rest =>
    if row.bottom = next.top ∧ isSpanInRow next span = true then mergedBottom span next rest else row.bottom

def currentRect (row : Row) (rest : List Row) (span : RowSpan) : DesktopRect :=
  ⟨span.left, row.top, span.right, mergedBottom span row rest⟩

/-- The same span is on the previous row, and the rectangle has been returned with it. -/
def isMerged (previousRow : Option Row) (row : Row) (span : RowSpan) : Bool :=
  previousRow.any fun previous => decide (previous.bottom = row.top) && isSpanInRow previous span

/-- The loop of `Advance`, from the span that is next on the row. -/
def seek (previousRow : Option Row) : List Row → List RowSpan → Option Iterator
  | [], _ => none
  | row :: rest, spans =>
    match spans.dropWhile (isMerged previousRow row) with
    | span :: more => some ⟨row :: rest, previousRow, span :: more, currentRect row rest span⟩
    | [] =>
      match rest with
      | [] => some ⟨[], some row, [], ⟨0, 0, 0, 0⟩⟩
      | next :: below => if next.spans = [] then none else seek (some row) (next :: below) next.spans

def advance (it : Iterator) : Option Iterator := seek it.previousRow it.row it.rowSpan.tail

def start (region : DesktopRegion) : Option Iterator :=
  match region.rows with
  | [] => some ⟨[], none, [], ⟨0, 0, 0, 0⟩⟩
  | row :: rest =>
    match row.spans with
    | [] => none
    | span :: more => some ⟨row :: rest, none, span :: more, currentRect row rest span⟩

end Iterator

namespace DesktopRegion

def addRegionLoop : Nat → Iterator → DesktopRegion → Option DesktopRegion
  | fuel, it, r =>
    if it.isAtEnd then some r
    else match fuel with
      | 0 => none
      | fuel + 1 => do
        let r ← r.addRect it.rect
        let it ← it.advance
        addRegionLoop fuel it r

def addRegion (r region : DesktopRegion) : Option DesktopRegion := do
  let it ← Iterator.start region
  addRegionLoop (region.rows.map fun row => row.spans.length).sum it r

/-! ## Sweeps over two regions -/

/-- The rows that are put out are kept with the last one first. -/
def intersectLoop : Nat → List Row → List Row → List Row → Option (List Row)
  | _, [], _, output => some output
  | _, _, [], output => some output
  | 0, _, _, _ => none
  | fuel + 1, r1 :: t1, r2 :: t2, output =>
    -- The first one is the top-most of the two.
    let (it1, rest1, it2, rest2) := if r2.top < r1.top then (r2, t2, r1, t1) else (r1, t1, r2, t2)
    if it1.bottom ≤ it2.top then intersectLoop fuel rest1 (it2 :: rest2) output
    else do
      let top := it2.top
      let bottom := min it1.bottom it2.bottom
      let (output, row, _) ← newRow output [] top bottom
      let spans ← intersectRows it1.spans it2.spans
      let output :=
        if spans = [] then output
        else (mergeWithPrecedingRow output { row with spans }).2 :: (mergeWithPrecedingRow output { row with spans }).1
      intersectLoop fuel (if it1.bottom = bottom then rest1 else it1 :: rest1)
        (if it2.bottom = bottom then rest2 else it2 :: rest2) output

def intersect (region1 region2 : DesktopRegion) : Option DesktopRegion :=
  (intersectLoop (region1.rows.length + region2.rows.length) region1.rows region2.rows
    []).map fun output => ⟨output.reverse⟩

def intersectWith (r region : DesktopRegion) : Option DesktopRegion := intersect r region

def intersectWithRect (r : DesktopRegion) (rect : DesktopRect) : Option DesktopRegion := do
  let region ← create.addRect rect
  r.intersectWith region

/-- The next row to subtract, with its top for the current one. -/
def nextRow (rowB : List Row) (top : Int) : List Row × Int :=
  match rowB.tail with
  | [] => ([], top)
  | next :: rest => (next :: rest, next.top)

def subtractLoop : Nat → List Row → List Row → List Row → Int → Option (List Row × List Row)
  | _, done, [], _, _ => some (done, [])
  | _, done, todo, [], _ => some (done, todo)
  | 0, _, _, _, _ => none
  | fuel + 1, done, rowA :: rest, rowB :: restB, top =>
    if rowA.bottom ≤ top then
      subtractLoop fuel ((mergeWithPrecedingRow done rowA).2 ::
        (mergeWithPrecedingRow done rowA).1) rest (rowB :: restB) top
    else if top < rowA.top ∧ rowB.bottom ≤ rowA.top then
      let (rowB, top) := nextRow (rowB :: restB) rowA.top
      subtractLoop fuel done (rowA :: rest) rowB top
    else do
      let top := if top < rowA.top then rowA.top else top
      let (done, rowA) ← splitAbove top done rowA
      let (rowA, rest) ← splitBelow top rowB.bottom done rowA rest
      let newSpans ← subtractRows rowA.spans rowB.spans
      let (rowB, top) := if rowB.bottom ≤ rowA.bottom then nextRow (rowB :: restB) rowA.bottom
        else (rowB :: restB, rowA.bottom)
      if newSpans = [] then subtractLoop fuel done rest rowB top
      else
        let (done, row) := mergeWithPrecedingRow done { rowA with spans := newSpans }
        subtractLoop fuel (row :: done) rest rowB top

def subtract (r region : DesktopRegion) : Option DesktopRegion :=
  match region.rows with
  | [] => some r
  | rowB :: _ => do
    let (done, todo) ← subtractLoop (r.rows.length + region.rows.length) (upperBound r.rows rowB.top).1
      (upperBound r.rows rowB.top).2 region.rows rowB.top
    some ⟨mergeLast done todo⟩

def subtractRect (r : DesktopRegion) (rect : DesktopRect) : Option DesktopRegion := do
  let region ← create.addRect rect
  r.subtract region

/-- When rows move up or down, a new map is made with their new keys. -/
def translate (r : DesktopRegion) (dx dy : Int) : DesktopRegion :=
  ⟨r.rows.map fun row =>
    { key := if dy ≠ 0 then row.bottom + dy else row.key
      top := row.top + dy
      bottom := row.bottom + dy
      spans := if dx ≠ 0 then row.spans.map fun span => ⟨span.left + dx, span.right + dx⟩ else row.spans }⟩

end DesktopRegion

end WebRtc.Desktop
