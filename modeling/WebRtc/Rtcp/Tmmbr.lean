import Mathlib.Order.Nat
import WebRtc.Lib.BubbleSort

/-!
# The bounding set of TMMBR tuples

| here | there |
| --- | --- |
| `SetElement` | `TMMBRSet` (`tmmbr_help.h:46-54`) |
| `keepLowest`, `minIndexTmmbr`, `place`, `rounds`, `boundingSet` | `FindTMMBRBoundingSet` (`tmmbr_help.cc:240-441`) |
| `findTMMBRBoundingSet` | `FindTMMBRBoundingSet` (:202-238) |

A set is an array; what is cleared in it stays as zeros. The selected list is a stack, the last tuple first, with the
two numbers the source keeps for each tuple. A `float` is the exact quotient.
-/

namespace WebRtc.Rtcp

structure SetElement where
  tmmbr : UInt32
  packetOh : UInt32
  ssrc : UInt32
deriving DecidableEq, Repr

/-- What `ClearEntry` writes. -/
def cleared : SetElement := ⟨0, 0, 0⟩

/-! ## Quotients -/

/-- A `float` quotient: 0 / 0 is not a number, and anything else over 0 is infinite. -/
structure FloatQuotient where
  numerator : Nat
  denominator : Nat
deriving DecidableEq, Repr

namespace FloatQuotient

variable (a b : FloatQuotient)

def isNan : Bool := a.numerator = 0 ∧ a.denominator = 0

def le : Bool := !a.isNan && !b.isNan && a.numerator * b.denominator ≤ b.numerator * a.denominator

def lt : Bool := !a.isNan && !b.isNan && a.numerator * b.denominator < b.numerator * a.denominator

end FloatQuotient

/-- Where the line of a tuple crosses the axis; the products have 32 bits. -/
def maxPacketRate (c : SetElement) : FloatQuotient := ⟨(c.tmmbr * 1000).toNat, (8 * c.packetOh).toNat⟩

/-- Where the lines of the candidate and the last tuple cross; the differences have 32 bits. -/
def packetRate (cur last : SetElement) : FloatQuotient :=
  ⟨(cur.tmmbr - last.tmmbr).toNat * 1000, (8 * (cur.packetOh - last.packetOh)).toNat⟩

/-! ## The candidates -/

section Candidates
variable (candidateSet : List SetElement)

def entry (i : Nat) : SetElement := candidateSet.getD i cleared

/-- The tuple with the lowest bitrate, of those from `i` on with the overhead of the one at `i`. -/
def lowestIndex (i : Nat) : Nat :=
  (List.range' (i + 1) (candidateSet.length - (i + 1))).foldl
    (fun m j =>
      if (entry candidateSet j).packetOh = (entry candidateSet i).packetOh ∧
        (entry candidateSet j).tmmbr < (entry candidateSet m).tmmbr then j else m) i

def keepLowest (i : Nat) : List SetElement :=
  candidateSet.mapIdx fun j c =>
    if c.packetOh = (entry candidateSet i).packetOh ∧ j ≠ lowestIndex candidateSet i then cleared else c

/-- Step 2. -/
def keepLowestAll : List SetElement :=
  (List.range candidateSet.length).foldl (fun l i => if 0 < (entry l i).tmmbr then keepLowest l i else l) candidateSet

/-- The first tuple that is left. -/
def firstIndex : Option Nat := candidateSet.findIdx? fun c => 0 < c.tmmbr

/-- Step 3. -/
def minIndexTmmbr : Nat :=
  (List.range candidateSet.length).foldl
    (fun m i =>
      if 0 < (entry candidateSet i).tmmbr ∧ (entry candidateSet i).tmmbr ≤ (entry candidateSet m).tmmbr then i else m)
    ((firstIndex candidateSet).getD 0)

/-- The condition of step 4. -/
def lower (packetOh : UInt32) (c : SetElement) : Bool := 0 < c.tmmbr ∧ c.packetOh < packetOh

def discardLower (packetOh : UInt32) : List SetElement :=
  candidateSet.map fun c => if lower packetOh c then cleared else c

/-- Step 5: the candidate stays what it is when no tuple is left. -/
def takeFirst (cur : SetElement) : List SetElement × SetElement :=
  match firstIndex candidateSet with
  | some i => (candidateSet.set i cleared, entry candidateSet i)
  | none => (candidateSet, cur)

end Candidates

/-! ## The selected list -/

structure Selected where
  tuple : SetElement
  intersection : FloatQuotient
  maxPr : FloatQuotient
deriving DecidableEq, Repr

/-- Steps 6 to 8. There is none when the list has run empty. -/
def place (cur : SetElement) : List Selected → Option (List Selected)
  | [] => none
  | last :: selected =>
    let rate := packetRate cur last.tuple
    if rate.le last.intersection then place cur selected
    else if rate.lt last.maxPr then some (⟨cur, rate, maxPacketRate cur⟩ :: last :: selected)
    else some (last :: selected)

/-- The loop from step 5 to step 9, once for each candidate that is counted. -/
def rounds : Nat → List SetElement → SetElement → List Selected → Option (List Selected)
  | 0, _, _, selected => some selected
  | numCandidates + 1, candidateSet, cur, selected =>
    let (candidateSet, cur) := takeFirst candidateSet cur
    (place cur selected).bind fun selected => rounds numCandidates candidateSet cur selected

def boundingSet (numCandidates : Nat) (candidateSet : List SetElement) : Option (List SetElement) :=
  if numCandidates = 1 then some (candidateSet.filter fun c => 0 < c.tmmbr)
  else
    let candidateSet := BubbleSort.sort (fun c => c.packetOh.toNat) candidateSet.length candidateSet
    let candidateSet := keepLowestAll candidateSet
    let minIndex := minIndexTmmbr candidateSet
    let first := entry candidateSet minIndex
    let candidateSet := candidateSet.set minIndex cleared
    let numCandidates := numCandidates - 1 - candidateSet.countP (lower first.packetOh)
    let candidateSet := discardLower candidateSet first.packetOh
    (rounds numCandidates candidateSet cleared [⟨first, ⟨0, 1⟩, maxPacketRate first⟩]).map fun selected =>
      (selected.map Selected.tuple).reverse

/-- The tuples of a set. -/
def tuples (candidateSet : List SetElement) : List SetElement := candidateSet.filter fun c => 0 < c.tmmbr

/-- The return value, with the set that was found. -/
def findTMMBRBoundingSet (candidateSet : List SetElement) : Option (Int × List SetElement) :=
  let numSetCandidates := (tuples candidateSet).length
  if 0 < numSetCandidates then
    (boundingSet numSetCandidates
      (tuples candidateSet ++ List.replicate (candidateSet.length - numSetCandidates) cleared)).map fun found =>
        if found.length < 1 ∨ candidateSet.length < found.length then (-1, []) else (found.length, found)
  else some (0, [])

end WebRtc.Rtcp
