import WebRtc.Lib.Block
import WebRtc.Lib.CInt
import WebRtc.Lib.Machine

/-!
# Audio vectors

| here | there |
| --- | --- |
| `AudioVector` | `audio_vector.h` |
| `reserve`, the operations | `audio_vector.cc:36-161`, `:181-188` |

The array is a block of memory, and the samples are in front of it. An operation has no result where it reads or
writes outside of the array or gets no memory. What memory holds that is new is a parameter (`fresh`). Lists of samples
are what the vectors stand for (`audioRun_refines`).
-/

namespace WebRtc.NetEq

open CInt

structure AudioVector where
  array : List Int16
  firstFreeIx : Nat
deriving DecidableEq, Repr

/-- The samples of which `n * sizeof(int16_t)` is the size. -/
def samples (n : Nat) : Nat := toSize (n * 2) / 2

theorem samples_eq {n : Nat} (h : n < 2 ^ 63) : samples n = n := by
  unfold samples toSize
  omega

/-- Mixing with `alpha` in Q14. -/
def mix (alpha : Int) (a b : Int16) : Int16 :=
    Int16.ofInt ((alpha * a.toInt + (16384 - alpha) * b.toInt + 8192) >>> (14 : Nat))

namespace AudioVector

def size (v : AudioVector) : Nat := v.firstFreeIx

def capacity (v : AudioVector) : Nat := v.array.length

/-- `new int16_t[n]`, when its size is a `size_t`. -/
def newArray (fresh : Nat → Int16) (n : Nat) : Option (List Int16) :=
  if n < 2 ^ 63 then some ((List.range n).map fresh) else none

def kDefaultInitialSize : Nat := 10

def create (fresh : Nat → Int16) : AudioVector where
  array := (List.range kDefaultInitialSize).map fresh
  firstFreeIx := 0

def createSize (initialSize : Nat) : AudioVector where
  array := List.replicate initialSize 0
  firstFreeIx := initialSize

def clear (v : AudioVector) : AudioVector := { v with firstFreeIx := 0 }

def reserve (fresh : Nat → Int16) (v : AudioVector) (n : Nat) : Option AudioVector :=
  if v.capacity < n then do
    let tempArray ← newArray fresh n
    let elements ← Block.read v.array 0 (samples v.size)
    let array ← Block.write tempArray 0 elements
    some { v with array }
  else some v

def copyTo (fresh : Nat → Int16) (v copyTo : AudioVector) : Option AudioVector := do
  let copyTo ← copyTo.reserve fresh v.size
  let elements ← Block.read v.array 0 (samples v.size)
  let array ← Block.write copyTo.array 0 elements
  some ⟨array, v.firstFreeIx⟩

def pushFrontVector (fresh : Nat → Int16) (v prependThis : AudioVector) : Option AudioVector := do
  let insertLength := prependThis.size
  let v ← v.reserve fresh (szAdd v.size insertLength)
  let array ← Block.move v.array insertLength 0 (samples v.size)
  let elements ← Block.read prependThis.array 0 (samples insertLength)
  let array ← Block.write array 0 elements
  some ⟨array, szAdd v.firstFreeIx insertLength⟩

def insertAt (fresh : Nat → Int16) (v : AudioVector) (insertThis : List Int16) (position : Nat) :
    Option AudioVector := do
  let v ← v.reserve fresh (szAdd v.size insertThis.length)
  -- Cap the position at the current vector length.
  let position := min v.size position
  let samplesToMove := szSub v.size position
  let array ← Block.move v.array (position + insertThis.length) position (samples samplesToMove)
  let array ← Block.write array position insertThis
  some ⟨array, szAdd v.firstFreeIx insertThis.length⟩

def pushFront (fresh : Nat → Int16) (v : AudioVector) (prependThis : List Int16) : Option AudioVector :=
  v.insertAt fresh prependThis 0

def pushBack (fresh : Nat → Int16) (v : AudioVector) (appendThis : List Int16) : Option AudioVector := do
  let v ← v.reserve fresh (szAdd v.size appendThis.length)
  let array ← Block.write v.array v.firstFreeIx appendThis
  some ⟨array, szAdd v.firstFreeIx appendThis.length⟩

def pushBackVector (fresh : Nat → Int16) (v appendThis : AudioVector) : Option AudioVector := do
  let elements ← Block.read appendThis.array 0 appendThis.size
  v.pushBack fresh elements

def popFront (v : AudioVector) (length : Nat) : Option AudioVector :=
  if length ≥ v.size then some v.clear
  else do
    let remainingSamples := szSub v.size length
    let array ← Block.move v.array 0 length (samples remainingSamples)
    some ⟨array, szSub v.firstFreeIx length⟩

def popBack (v : AudioVector) (length : Nat) : AudioVector :=
  { v with firstFreeIx := szSub v.firstFreeIx (min length v.size) }

def extend (fresh : Nat → Int16) (v : AudioVector) (extraLength : Nat) : Option AudioVector := do
  let v ← v.reserve fresh (szAdd v.size extraLength)
  let array ← Block.write v.array v.firstFreeIx (List.replicate (samples extraLength) 0)
  some ⟨array, szAdd v.firstFreeIx extraLength⟩

def insertZerosAt (fresh : Nat → Int16) (v : AudioVector) (length position : Nat) : Option AudioVector := do
  let v ← v.reserve fresh (szAdd v.size length)
  -- Cap the position at the capacity, not at the current vector length.
  let position := min v.capacity position
  let samplesToMove := szSub v.size position
  let array ← Block.move v.array (position + length) position (samples samplesToMove)
  let array ← Block.write array position (List.replicate (samples length) 0)
  some ⟨array, szAdd v.firstFreeIx length⟩

def overwriteAt (fresh : Nat → Int16) (v : AudioVector) (insertThis : List Int16) (position : Nat) :
    Option AudioVector := do
  -- Cap the insert position at the current array length.
  let position := min v.size position
  let v ← v.reserve fresh (szAdd position insertThis.length)
  let array ← Block.write v.array position insertThis
  if szAdd position insertThis.length > v.size then
    -- Array was expanded.
    some ⟨array, szAdd v.firstFreeIx (szSub (szAdd position insertThis.length) v.size)⟩
  else some { v with array }

/-- The loop that cross fades the overlapping regions: the array and `alpha`. -/
def crossFadeLoop (alphaStep : Int) (appendThis : List Int16) (position : Nat) :
    (left i : Nat) → (alpha : Int) → (array : List Int16) → Option (List Int16 × Int)
  | 0, _, alpha, array => some (array, alpha)
  | left + 1, i, alpha, array => do
    let alpha := alpha - alphaStep
    let a ← array[position + i]?
    let b ← appendThis[i]?
    crossFadeLoop alphaStep appendThis position left (i + 1) alpha (array.set (position + i) (mix alpha a b))

def crossFade (fresh : Nat → Int16) (v appendThis : AudioVector) (fadeLength : Nat) : Option AudioVector := do
  let fadeLength := min (min fadeLength v.size) appendThis.size
  let position := szSub v.size fadeLength
  let denominator ← checked32 (i32 fadeLength + 1)
  if denominator = 0 then none
  else do
    let (array, alpha) ← crossFadeLoop (Int.tdiv 16384 denominator) appendThis.array position fadeLength 0 16384 v.array
    -- Verify that the slope was correct.
    if alpha < 0 then none
    else
      let v := { v with array }
      -- Append what is left.
      let samplesToPushBack := szSub appendThis.size fadeLength
      if samplesToPushBack > 0 then do
        let elements ← Block.read appendThis.array fadeLength samplesToPushBack
        v.pushBack fresh elements
      else some v

end AudioVector

/-! ## What the operations are for -/

/-- Two lists that overlap in the last `fadeLength` elements of the first one, where they are mixed. -/
def crossFaded (l m : List Int16) (fadeLength : Nat) : List Int16 :=
  l.take (l.length - fadeLength) ++
    ((l.drop (l.length - fadeLength)).zip m).mapIdx
      (fun i (a, b) => mix (16384 - (i + 1) * (16384 / (fadeLength + 1))) a b) ++
    m.drop fadeLength

/-- What is put in place of the elements from `position` on. -/
def overwritten (l data : List Int16) (position : Nat) : List Int16 :=
  l.take position ++ data ++ l.drop (position + data.length)

def inserted (l data : List Int16) (position : Nat) : List Int16 := l.take position ++ data ++ l.drop position

/-! ## Lists in vectors -/

namespace AudioVector

/-- The samples are in front of the array. -/
structure Holds (v : AudioVector) (l : List Int16) : Prop where
  size_eq : v.firstFreeIx = l.length
  array_eq : ∃ rest, v.array = l ++ rest
  capacity_lt : v.array.length < 2 ^ 63

section Operations
variable {v w : AudioVector} {l m : List Int16}

theorem Holds.size_le (h : v.Holds l) : v.size ≤ v.capacity := by
  obtain ⟨rest, hrest⟩ := h.array_eq
  rw [size, capacity, h.size_eq, hrest, List.length_append]
  exact Nat.le_add_right _ _

/-- The first `Size()` elements are the list. -/
theorem Holds.contents (h : v.Holds l) : v.array.take v.size = l := by
  obtain ⟨rest, hrest⟩ := h.array_eq
  rw [hrest, size, h.size_eq, List.take_left]

theorem Holds.of {array rest : List Int16} (harray : array = l ++ rest) (hlength : array.length < 2 ^ 63) :
    Holds ⟨array, l.length⟩ l := ⟨rfl, ⟨rest, harray⟩, hlength⟩

theorem Holds.read (h : v.Holds l) : Block.read v.array 0 v.size = some l := by
  obtain ⟨rest, hrest⟩ := h.array_eq
  rw [hrest, size, h.size_eq]
  exact Block.read_append [] l rest

theorem create_holds (fresh : Nat → Int16) : (create fresh).Holds [] :=
  ⟨rfl, ⟨(create fresh).array, rfl⟩, by simp [create, kDefaultInitialSize]⟩

theorem createSize_holds {n : Nat} (h : n < 2 ^ 63) : (createSize n).Holds (List.replicate n 0) :=
  ⟨by simp [createSize], ⟨[], by simp [createSize]⟩, by simpa [createSize] using h⟩

/-- **Reserving** keeps the samples. -/
theorem reserve_holds (h : v.Holds l) (fresh : Nat → Int16) {n : Nat} (hn : n < 2 ^ 63) : ∃ rest,
    v.reserve fresh n = some ⟨l ++ rest, l.length⟩ ∧ n ≤ l.length + rest.length ∧ (l ++ rest).length < 2 ^ 63 := by
  obtain ⟨rest, hrest⟩ := h.array_eq
  have hcapacity := h.capacity_lt
  rw [reserve]
  split
  · rename_i hless
    have hsize : samples v.size = v.size := samples_eq (Nat.lt_of_le_of_lt h.size_le hcapacity)
    have hfits : 0 + l.length ≤ ((List.range n).map fresh).length := by
      have hle := h.size_le
      rw [size, h.size_eq] at hle
      rw [List.length_map, List.length_range]
      omega
    obtain ⟨front, old, behind, hparts, hfront, hold, hbehind⟩ := Block.parts hfits
    obtain rfl := List.eq_nil_of_length_eq_zero hfront
    have hwrite := Block.write_append [] behind hold.symm
    rw [List.length_map, List.length_range] at hbehind hfits
    refine ⟨behind, ?_, by omega, by rw [List.length_append]; omega⟩
    rw [newArray, if_pos hn, hsize, h.read, hparts, h.size_eq]
    simp only [Option.bind_eq_bind, Option.bind_some]
    rw [show (0 : Nat) = ([] : List Int16).length from rfl, hwrite]
    rfl
  · rename_i hge
    refine ⟨rest, ?_, ?_, hrest ▸ hcapacity⟩
    · rw [← hrest, ← h.size_eq]
    · rw [← List.length_append, ← hrest]
      exact Nat.le_of_not_lt hge

theorem Holds.length_lt (h : v.Holds l) : l.length < 2 ^ 63 := by
  have hle := h.size_le
  rw [size, h.size_eq] at hle
  exact Nat.lt_of_le_of_lt hle h.capacity_lt

theorem copyTo_holds (fresh : Nat → Int16) (hv : v.Holds l) (hw : w.Holds m) :
    ∃ w', v.copyTo fresh w = some w' ∧ w'.Holds l := by
  have hsize : v.size = l.length := hv.size_eq
  obtain ⟨rest, hreserve, hroom, hlt⟩ := reserve_holds hw fresh hv.length_lt
  obtain ⟨front, old, behind, hparts, hfront, hold, -⟩ :=
    @Block.parts _ (m ++ rest) 0 l.length (by rw [List.length_append]; omega)
  obtain rfl := List.eq_nil_of_length_eq_zero hfront
  have hwrite := Block.write_append [] behind hold.symm
  refine ⟨⟨l ++ behind, l.length⟩, ?_, .of rfl ?_⟩
  · have hread := hv.read
    rw [hsize] at hread
    simp only [copyTo, hsize, hreserve, samples_eq hv.length_lt, hread, Option.bind_eq_bind, Option.bind_some, hparts]
    rw [show (0 : Nat) = ([] : List Int16).length from rfl, hwrite, hv.size_eq]
    rfl
  · have hsame := Block.write_length hwrite
    rw [← hparts] at hsame
    exact hsame ▸ hlt

theorem inserted_length (l data : List Int16) (position : Nat) :
    (inserted l data position).length = l.length + data.length := by
  simp only [inserted, List.length_append, List.length_take, List.length_drop]
  omega

theorem inserted_min (l data : List Int16) (position : Nat) :
    inserted l data (min l.length position) = inserted l data position := by
  rcases Nat.le_total position l.length with hle | hle
  · rw [Nat.min_eq_right hle]
  · rw [Nat.min_eq_left hle]
    simp [inserted, List.take_of_length_le hle, List.drop_of_length_le hle]

/-- Making room at `p` and writing there. -/
theorem insert_holds {rest data : List Int16} {p : Nat} (hp : p ≤ l.length) (hroom : data.length ≤ rest.length)
    (hlt : (l ++ rest).length < 2 ^ 63) : ∃ moved array,
    Block.move (l ++ rest) (p + data.length) p (l.length - p) = some moved ∧ Block.write moved p data = some array ∧
    Holds ⟨array, szAdd l.length data.length⟩ (inserted l data p) := by
  have htake : (l.take p).length = p := List.length_take_of_le hp
  obtain ⟨gap, rest', hgap, hrest, hmove⟩ := Block.move_up (l.take p) (l.drop p) hroom
  have hwrite := Block.write_append (l.take p) (l.drop p ++ rest') hgap.symm
  rw [← List.append_assoc, List.take_append_drop, htake, List.length_drop] at hmove
  rw [htake] at hwrite
  refine ⟨_, _, hmove, hwrite, ?_, ⟨rest', by simp [inserted]⟩, ?_⟩
  · rw [List.length_append] at hlt
    rw [szAdd_eq (by omega), inserted_length]
  · simp only [List.length_append, List.length_take, List.length_drop] at hlt ⊢
    omega

/-- The sum of two sizes, when there is memory for it. -/
theorem szAdd_length {a b : Nat} (h : a + b < 2 ^ 63) : szAdd a b = a + b := szAdd_eq (by omega)

theorem insertAt_holds (fresh : Nat → Int16) (hv : v.Holds l) (data : List Int16) (position : Nat)
    (hlength : l.length + data.length < 2 ^ 63) :
    ∃ v', v.insertAt fresh data position = some v' ∧ v'.Holds (inserted l data position) := by
  obtain ⟨rest, hreserve, hroom, hlt⟩ := reserve_holds hv fresh hlength
  obtain ⟨moved, array, hmove, hwrite, hholds⟩ :=
    @insert_holds l rest data (min l.length position) (Nat.min_le_left _ _) (by omega) hlt
  have hmoved : samples (szSub l.length (min l.length position)) = l.length - min l.length position := by
    rw [szSub_eq (Nat.min_le_left _ _) (by omega), samples_eq (by omega)]
  refine ⟨_, ?_, inserted_min l data position ▸ hholds⟩
  simp [insertAt, size, hv.size_eq, szAdd_length hlength, hreserve, hmoved, hmove, hwrite]

theorem insertZerosAt_holds (fresh : Nat → Int16) (hv : v.Holds l) {length position : Nat}
    (hlength : l.length + length < 2 ^ 63) (hposition : position ≤ l.length ∨ length = 0 ∧ v.capacity = l.length) :
    ∃ v', v.insertZerosAt fresh length position = some v' ∧
      v'.Holds (inserted l (List.replicate length 0) position) := by
  obtain ⟨rest, hreserve, hroom, hlt⟩ := reserve_holds hv fresh hlength
  -- The capacity is no other cap than the length.
  have hcap : min (l ++ rest).length position = min l.length position := by
    rcases hposition with hle | ⟨rfl, hfull⟩
    · rw [List.length_append]
      omega
    · have hsame : v.reserve fresh (l.length + 0) = some v := by
        rw [reserve, if_neg (by omega)]
      rw [hsame] at hreserve
      have harray := congrArg AudioVector.array (Option.some.inj hreserve)
      rw [capacity, harray] at hfull
      rw [hfull]
  obtain ⟨moved, array, hmove, hwrite, hholds⟩ :=
    @insert_holds l rest (List.replicate length 0) (min l.length position) (Nat.min_le_left _ _)
      (by rw [List.length_replicate]; omega) hlt
  have hmoved : samples (szSub l.length (min l.length position)) = l.length - min l.length position := by
    rw [szSub_eq (Nat.min_le_left _ _) (by omega), samples_eq (by omega)]
  rw [List.length_replicate] at hmove hholds
  refine ⟨_, ?_, inserted_min l _ position ▸ hholds⟩
  simp only [insertZerosAt, size, hv.size_eq, szAdd_length hlength, hreserve, capacity, hcap, hmoved, hmove,
    samples_eq (show length < 2 ^ 63 by omega), hwrite, Option.bind_eq_bind, Option.bind_some]

/-- **Behind the end of the samples** zeros are not inserted, but something is moved from behind the array. -/
theorem insertZerosAt_behind (fresh : Nat → Int16) (hv : v.Holds l) {length position : Nat}
    (hlength : l.length + length < 2 ^ 63) (hbehind : l.length < position)
      (hroom : length ≠ 0 ∨ v.capacity ≠ l.length) :
    v.insertZerosAt fresh length position = none := by
  obtain ⟨rest, hreserve, hfits, hlt⟩ := reserve_holds hv fresh hlength
  have hcapacity : l.length < (l ++ rest).length := by
    rw [List.length_append]
    rcases hroom with hpos | hroom
    · omega
    · -- Nothing is reserved.
      rcases Nat.eq_zero_or_pos length with rfl | hpos
      · have hle := hv.size_le
        rw [size, hv.size_eq] at hle
        rw [reserve, if_neg (by omega)] at hreserve
        have harray := congrArg AudioVector.array (Option.some.inj hreserve)
        rw [capacity, harray, List.length_append] at hroom hle
        omega
      · omega
  have hmove : ∀ p, l.length < p → p ≤ (l ++ rest).length →
      Block.move (l ++ rest) (p + length) p (samples (szSub l.length p)) = none := by
    intro p hp hple
    have hcount : samples (szSub l.length p) = 2 ^ 63 - (p - l.length) := by
      unfold samples szSub toSize
      omega
    rw [Block.move, Block.read, if_neg (by rw [hcount]; omega)]
    rfl
  have hsize : szAdd l.length length = l.length + length := szAdd_length hlength
  simp only [insertZerosAt, size, hv.size_eq, hsize, hreserve, capacity, Option.bind_eq_bind, Option.bind_some,
    hmove (min (l ++ rest).length position) (by omega) (Nat.min_le_left _ _), Option.bind_none]

theorem pushFrontVector_holds (fresh : Nat → Int16) (hv : v.Holds l) (hw : w.Holds m)
    (hlength : l.length + m.length < 2 ^ 63) :
    ∃ v', v.pushFrontVector fresh w = some v' ∧ v'.Holds (m ++ l) := by
  obtain ⟨rest, hreserve, hroom, hlt⟩ := reserve_holds hv fresh hlength
  obtain ⟨moved, array, hmove, hwrite, hholds⟩ := @insert_holds l rest m 0 (Nat.zero_le _) (by omega) hlt
  have hread := hw.read
  rw [size, hw.size_eq] at hread
  rw [Nat.zero_add, Nat.sub_zero] at hmove
  refine ⟨_, ?_, by simpa [inserted] using hholds⟩
  simp [pushFrontVector, size, hv.size_eq, hw.size_eq, szAdd_length hlength, hreserve, samples_eq hv.length_lt,
    samples_eq hw.length_lt, hmove, hread, hwrite]

/-- Writing behind the samples. -/
theorem append_holds {rest data : List Int16} (hroom : data.length ≤ rest.length) (hlt : (l ++ rest).length < 2 ^ 63) :
    ∃ array, Block.write (l ++ rest) l.length data = some array ∧
      Holds ⟨array, szAdd l.length data.length⟩ (l ++ data) := by
  have hwrite := @Block.write_append _ l (rest.drop data.length) (rest.take data.length) data
    (List.length_take_of_le hroom).symm
  rw [List.take_append_drop] at hwrite
  refine ⟨_, hwrite, ?_, ⟨rest.drop data.length, by simp⟩, ?_⟩
  · rw [List.length_append] at hlt
    rw [szAdd_eq (by omega), List.length_append]
  · rw [Block.write_length hwrite]
    exact hlt

theorem pushBack_holds (fresh : Nat → Int16) (hv : v.Holds l) (data : List Int16)
    (hlength : l.length + data.length < 2 ^ 63) :
    ∃ v', v.pushBack fresh data = some v' ∧ v'.Holds (l ++ data) := by
  obtain ⟨rest, hreserve, hroom, hlt⟩ := reserve_holds hv fresh hlength
  obtain ⟨array, hwrite, hholds⟩ := @append_holds l rest data (by omega) hlt
  refine ⟨_, ?_, hholds⟩
  simp [pushBack, size, hv.size_eq, szAdd_length hlength, hreserve, hwrite]

theorem pushBackVector_holds (fresh : Nat → Int16) (hv : v.Holds l) (hw : w.Holds m)
    (hlength : l.length + m.length < 2 ^ 63) :
    ∃ v', v.pushBackVector fresh w = some v' ∧ v'.Holds (l ++ m) := by
  obtain ⟨v', hpush, hholds⟩ := pushBack_holds fresh hv m hlength
  exact ⟨v', by simp [pushBackVector, hw.read, hpush], hholds⟩

theorem extend_holds (fresh : Nat → Int16) (hv : v.Holds l) {extraLength : Nat}
    (hlength : l.length + extraLength < 2 ^ 63) :
    ∃ v', v.extend fresh extraLength = some v' ∧ v'.Holds (l ++ List.replicate extraLength 0) := by
  obtain ⟨rest, hreserve, hroom, hlt⟩ := reserve_holds hv fresh hlength
  obtain ⟨array, hwrite, hholds⟩ := @append_holds l rest (List.replicate extraLength 0)
    (by rw [List.length_replicate]; omega) hlt
  rw [List.length_replicate] at hholds
  refine ⟨_, ?_, hholds⟩
  simp only [extend, size, hv.size_eq, szAdd_length hlength, hreserve, samples_eq (show extraLength < 2 ^ 63 by omega),
    hwrite, Option.bind_eq_bind, Option.bind_some]

theorem popFront_holds (hv : v.Holds l) (length : Nat) : ∃ v', v.popFront length = some v' ∧
    v'.Holds (l.drop length) := by
  have hsize : v.size = l.length := hv.size_eq
  have hlt := hv.length_lt
  obtain ⟨rest, hrest⟩ := hv.array_eq
  rw [popFront, hsize]
  split
  · rename_i hall
    refine ⟨_, rfl, ?_⟩
    rw [List.drop_of_length_le hall]
    exact ⟨rfl, ⟨_, rfl⟩, hv.capacity_lt⟩
  · rename_i hless
    have htake : (l.take length).length = length := List.length_take_of_le (by omega)
    obtain ⟨rest', hlength, hmove⟩ := Block.move_down (l.take length) (l.drop length) rest
    rw [← List.append_assoc, List.take_append_drop, htake, List.length_drop] at hmove
    have hremaining : szSub l.length length = l.length - length := szSub_eq (by omega) (by omega)
    refine ⟨⟨l.drop length ++ rest', l.length - length⟩, ?_, by simp, ⟨rest', rfl⟩, ?_⟩
    · simp [hrest, hv.size_eq, hremaining, samples_eq (show l.length - length < 2 ^ 63 by omega), hmove]
    · have hcapacity := hv.capacity_lt
      rw [hrest, List.length_append] at hcapacity
      rw [List.length_append, List.length_drop]
      omega

theorem popBack_holds (hv : v.Holds l) (length : Nat) : (v.popBack length).Holds (l.take (l.length - length)) := by
  obtain ⟨rest, hrest⟩ := hv.array_eq
  have hlt := hv.length_lt
  refine ⟨?_, ⟨l.drop (l.length - length) ++ rest, ?_⟩, hv.capacity_lt⟩
  · rw [popBack, size, hv.size_eq, List.length_take]
    simp only
    rw [szSub_eq (Nat.min_le_right _ _) (by omega)]
    omega
  · rw [popBack, hrest, ← List.append_assoc, List.take_append_drop]

theorem overwritten_min (l data : List Int16) (position : Nat) :
    overwritten l data (min l.length position) = overwritten l data position := by
  rcases Nat.le_total position l.length with hle | hle
  · rw [Nat.min_eq_right hle]
  · rw [Nat.min_eq_left hle]
    simp [overwritten, List.take_of_length_le hle,
      List.drop_of_length_le (show l.length ≤ position + data.length by omega)]

theorem overwriteAt_holds (fresh : Nat → Int16) (hv : v.Holds l) (data : List Int16) (position : Nat)
    (hlength : min l.length position + data.length < 2 ^ 63) :
    ∃ v', v.overwriteAt fresh data position = some v' ∧ v'.Holds (overwritten l data position) := by
  rw [← overwritten_min]
  have hpos := Nat.min_le_left l.length position
  simp only [overwriteAt, size, hv.size_eq]
  generalize min l.length position = p at *
  have hlt := hv.length_lt
  obtain ⟨rest, hreserve, hroom, hcapacity⟩ := reserve_holds hv fresh hlength
  have hwrite : Block.write (l ++ rest) p data =
    some ((l ++ rest).take p ++ (data ++ (l ++ rest).drop (p + data.length))) := by
    rw [Block.write, if_pos (by rw [List.length_append]; exact hroom)]
  have hsame := Block.write_length hwrite
  have htake : (l ++ rest).take p = l.take p := List.take_append_of_le_length hpos
  rw [szAdd_length hlength, hreserve]
  simp only [Option.bind_eq_bind, Option.bind_some, hwrite]
  rw [htake] at hsame ⊢
  have hplength : (l.take p).length = p := List.length_take_of_le hpos
  split
  · rename_i hexpanded
    have hnone : l.drop (p + data.length) = [] := List.drop_of_length_le (by omega)
    refine ⟨_, rfl, ?_, ⟨(l ++ rest).drop (p + data.length), by simp [overwritten, hnone]⟩, hsame ▸ hcapacity⟩
    simp only [overwritten, hnone, List.append_nil, List.length_append, hplength]
    rw [szSub_eq (by omega) (by omega), szAdd_eq (by omega)]
    omega
  · rename_i hinside
    have hdrop : (l ++ rest).drop (p + data.length) = l.drop (p + data.length) ++ rest :=
      List.drop_append_of_le_length (by omega)
    refine ⟨_, rfl, ?_, ⟨rest, by simp [overwritten, hdrop]⟩, hsame ▸ hcapacity⟩
    simp only [overwritten, List.length_append, hplength, List.length_drop]
    omega

/-! ### Cross fading -/

/-- The samples of the overlapping regions, when `alpha` is what it is before the first of them. -/
def faded (alphaStep alpha : Int) (a b : List Int16) : List Int16 :=
  (a.zip b).mapIdx fun k (x, y) => mix (alpha - (k + 1) * alphaStep) x y

theorem faded_cons (alphaStep alpha : Int) (x y : Int16) (a b : List Int16) :
    faded alphaStep alpha (x :: a) (y :: b) = mix (alpha - alphaStep) x y :: faded alphaStep
      (alpha - alphaStep) a b := by
  simp only [faded, List.zip_cons_cons, List.mapIdx_cons]
  congr 1
  · simp
  · congr 1
    funext k p
    congr 1
    push_cast
    rw [Int.add_mul, Int.one_mul]
    omega

theorem faded_length {alphaStep alpha : Int} {a b : List Int16} (h : a.length ≤ b.length) :
    (faded alphaStep alpha a b).length = a.length := by
  simp [faded, h]

/-- Only as much of the second list as there is of the first. -/
theorem faded_append {alphaStep alpha : Int} {a b : List Int16} (h : a.length ≤ b.length) (rest : List Int16) :
    faded alphaStep alpha a (b ++ rest) = faded alphaStep alpha a b := by
  have hzip : a.zip (b ++ rest) = a.zip b := by
    induction a generalizing b with
    | nil => rfl
    | cons x a ih =>
      cases b with
      | nil => simp at h
      | cons y b => simp [ih (Nat.le_of_succ_le_succ h)]
  rw [faded, hzip, faded]

/-- **The loop** over the overlapping regions. -/
theorem crossFadeLoop_eq (alphaStep : Int) (appendThis rest : List Int16) {position i : Nat}
    (alpha : Int) {x : List Int16}
    (y : List Int16) (hx : x.length = position + i) (hy : i + y.length ≤ appendThis.length) :
    crossFadeLoop alphaStep appendThis position y.length i alpha (x ++ (y ++ rest)) =
      some (x ++ (faded alphaStep alpha y (appendThis.drop i) ++ rest), alpha - y.length * alphaStep) := by
  induction y generalizing x i alpha with
  | nil => simp [crossFadeLoop, faded]
  | cons a y ih =>
    rw [List.length_cons] at hy
    have hb : i < appendThis.length := by omega
    have hget : (x ++ (a :: y ++ rest))[position + i]? = some a := by
      rw [← hx]
      simp
    have hset : ∀ c, (x ++ (a :: y ++ rest)).set (position + i) c = (x ++ [c]) ++ (y ++ rest) := by
      intro c
      rw [← hx]
      simp
    simp only [List.length_cons, crossFadeLoop, hget, List.getElem?_eq_getElem hb, Option.bind_eq_bind,
      Option.bind_some, hset]
    rw [@ih (i + 1) (alpha - alphaStep) (x ++ [mix (alpha - alphaStep) a appendThis[i]])
      (by rw [List.length_append, List.length_singleton]; omega) (by omega)]
    rw [List.drop_eq_getElem_cons hb, faded_cons]
    congr 2
    · simp
    · push_cast
      rw [Int.add_mul, Int.one_mul]
      omega

/-- The first list with its last elements mixed. -/
def mixed (l m : List Int16) (fadeLength : Nat) : List Int16 :=
  l.take (l.length - fadeLength) ++ faded (16384 / (fadeLength + 1)) 16384 (l.drop (l.length - fadeLength)) m

theorem crossFaded_eq (l m : List Int16) (fadeLength : Nat) :
    crossFaded l m fadeLength = mixed l m fadeLength ++ m.drop fadeLength :=
  rfl

theorem mixed_length {fadeLength : Nat} (hl : fadeLength ≤ l.length) (hm : fadeLength ≤ m.length) :
    (mixed l m fadeLength).length = l.length := by
  have hregion : (l.drop (l.length - fadeLength)).length = fadeLength := by
    rw [List.length_drop]
    omega
  rw [mixed, List.length_append, faded_length (by rw [hregion]; exact hm), hregion, List.length_take]
  omega

/-- `alpha` does not go below zero. -/
theorem alpha_nonneg (fadeLength : Nat) : 0 ≤ 16384 - (fadeLength : Int) * (16384 / (fadeLength + 1)) := by
  have hstep : (0 : Int) ≤ 16384 / (fadeLength + 1) := Int.ediv_nonneg (by decide) (by omega)
  have hall : (16384 : Int) / (fadeLength + 1) * (fadeLength + 1) ≤ 16384 := Int.ediv_mul_le _ (by omega)
  rw [Int.mul_add, Int.mul_one] at hall
  rw [Int.mul_comm]
  omega

/-- The loop of `crossFade`. -/
theorem crossFadeLoop_holds (hv : v.Holds l) (hw : w.Holds m) {fadeLength : Nat} (hl : fadeLength ≤ l.length)
    (hm : fadeLength ≤ m.length) : ∃ array alpha, 0 ≤ alpha ∧
      crossFadeLoop (16384 / (fadeLength + 1)) w.array (l.length - fadeLength) fadeLength 0 16384 v.array =
        some (array, alpha) ∧
      Holds ⟨array, v.firstFreeIx⟩ (mixed l m fadeLength) := by
  obtain ⟨rest, hrest⟩ := hv.array_eq
  obtain ⟨restw, hrestw⟩ := hw.array_eq
  have hregion : (l.drop (l.length - fadeLength)).length = fadeLength := by
    rw [List.length_drop]
    omega
  have hfront : (l.take (l.length - fadeLength)).length = l.length - fadeLength + 0 := List.length_take_of_le (by omega)
  have hloop := crossFadeLoop_eq (16384 / (fadeLength + 1)) w.array rest 16384 (l.drop (l.length - fadeLength)) hfront
    (by rw [hregion, hrestw, List.length_append]; omega)
  rw [hregion, ← List.append_assoc, List.take_append_drop, ← hrest, List.drop_zero, hrestw,
    faded_append (by rw [hregion]; exact hm), ← List.append_assoc, ← hrestw] at hloop
  refine ⟨_, _, alpha_nonneg fadeLength, hloop, ?_, ⟨rest, rfl⟩, ?_⟩
  · rw [hv.size_eq, mixed_length hl hm]
  · have hcapacity := hv.capacity_lt
    have hsame := mixed_length hl hm
    rw [mixed] at hsame
    rw [hrest, List.length_append] at hcapacity
    simp only [List.length_append] at hsame ⊢
    omega

theorem crossFade_holds (fresh : Nat → Int16) (hv : v.Holds l) (hw : w.Holds m) {fadeLength : Nat}
    (hl : fadeLength ≤ l.length) (hm : fadeLength ≤ m.length) (hint : fadeLength + 1 < 2 ^ 31)
    (hlength : l.length + (m.length - fadeLength) < 2 ^ 63) :
    ∃ v', v.crossFade fresh w fadeLength = some v' ∧ v'.Holds (crossFaded l m fadeLength) := by
  have hmlt := hw.length_lt
  obtain ⟨array, alpha, halpha, hloop, hholds⟩ := crossFadeLoop_holds hv hw hl hm
  have hposition : szSub l.length fadeLength = l.length - fadeLength := szSub_eq hl (by omega)
  have hbehind : szSub m.length fadeLength = m.length - fadeLength := szSub_eq hm (by omega)
  have hdenominator : checked32 (i32 fadeLength + 1) = some ((fadeLength : Int) + 1) := by
    rw [i32_id (by omega) (by omega), checked32_eq (by omega) (by omega)]
  have hstep : Int.tdiv 16384 ((fadeLength : Int) + 1) = 16384 / (fadeLength + 1) :=
    Int.tdiv_eq_ediv_of_nonneg (by decide)
  have hzero : ¬ (fadeLength : Int) + 1 = 0 := by omega
  simp only [crossFade, size, hv.size_eq, hw.size_eq, Nat.min_eq_left hl, Nat.min_eq_left hm, hposition, hdenominator,
    Option.bind_eq_bind, Option.bind_some, hzero, if_false, hstep, hloop, Int.not_lt.2 halpha, hbehind]
  rw [crossFaded_eq]
  rw [hv.size_eq] at hholds
  split
  · obtain ⟨restw, hrestw⟩ := hw.array_eq
    have hread := Block.read_append (m.take fadeLength) (m.drop fadeLength) restw
    rw [← List.append_assoc, List.take_append_drop, ← hrestw, List.length_take_of_le hm, List.length_drop] at hread
    rw [hread, Option.bind_some]
    refine pushBack_holds fresh hholds (m.drop fadeLength) ?_
    rw [mixed_length hl hm, List.length_drop]
    exact hlength
  · rename_i hnone
    rw [List.drop_of_length_le (show m.length ≤ fadeLength by omega), List.append_nil]
    exact ⟨_, rfl, hholds⟩

end Operations

end AudioVector

/-! ## Runs -/

/-- An operation; a vector that it reads, or the one it copies to, is given by its name. -/
inductive AudioOp (ι : Type) where
  | pushFrontVector (prependThis : ι)
  | pushFront (prependThis : List Int16)
  | pushBackVector (appendThis : ι)
  | pushBack (appendThis : List Int16)
  | popFront (length : Nat)
  | popBack (length : Nat)
  | extend (extraLength : Nat)
  | insertAt (insertThis : List Int16) (position : Nat)
  | insertZerosAt (length position : Nat)
  | overwriteAt (insertThis : List Int16) (position : Nat)
  | copyTo (copyTo : ι)
  | crossFade (appendThis : ι) (fadeLength : Nat)

structure AudioCall (ι : Type) where
  vector : ι
  op : AudioOp ι
  fresh : Nat → Int16

section Runs
variable {ι : Type}

/-- The vector that is changed. -/
def AudioCall.target (call : AudioCall ι) : ι :=
  match call.op with
  | .copyTo j => j
  | _ => call.vector

/-- What it is changed to. -/
def AudioCall.result (call : AudioCall ι) (vectors : ι → AudioVector) : Option AudioVector :=
  let v := vectors call.vector
  match call.op with
  | .pushFrontVector j => v.pushFrontVector call.fresh (vectors j)
  | .pushFront prependThis => v.pushFront call.fresh prependThis
  | .pushBackVector j => v.pushBackVector call.fresh (vectors j)
  | .pushBack appendThis => v.pushBack call.fresh appendThis
  | .popFront length => v.popFront length
  | .popBack length => some (v.popBack length)
  | .extend extraLength => v.extend call.fresh extraLength
  | .insertAt insertThis position => v.insertAt call.fresh insertThis position
  | .insertZerosAt length position => v.insertZerosAt call.fresh length position
  | .overwriteAt insertThis position => v.overwriteAt call.fresh insertThis position
  | .copyTo j => v.copyTo call.fresh (vectors j)
  | .crossFade j fadeLength => v.crossFade call.fresh (vectors j) fadeLength

/-- The same on lists. -/
def AudioCall.listResult (call : AudioCall ι) (lists : ι → List Int16) : List Int16 :=
  let l := lists call.vector
  match call.op with
  | .pushFrontVector j => lists j ++ l
  | .pushFront prependThis => prependThis ++ l
  | .pushBackVector j => l ++ lists j
  | .pushBack appendThis => l ++ appendThis
  | .popFront length => l.drop length
  | .popBack length => l.take (l.length - length)
  | .extend extraLength => l ++ List.replicate extraLength 0
  | .insertAt insertThis position => inserted l insertThis position
  | .insertZerosAt length position => inserted l (List.replicate length 0) position
  | .overwriteAt insertThis position => overwritten l insertThis position
  | .copyTo _ => l
  | .crossFade j fadeLength => crossFaded l (lists j) fadeLength

/-- No vector is its own source, and the fade length is within both vectors. -/
def AudioCall.Allowed (vectors : ι → AudioVector) (call : AudioCall ι) : Prop :=
  match call.op with
  | .pushFrontVector j | .pushBackVector j | .copyTo j => j ≠ call.vector
  | .crossFade j fadeLength =>
    j ≠ call.vector ∧ fadeLength ≤ (vectors call.vector).size ∧ fadeLength ≤ (vectors j).size
  | _ => True

/-- There is memory for the samples, an `int` for the fade length, and zeros are not inserted behind the end. -/
def AudioCall.Fits (vectors : ι → AudioVector) (call : AudioCall ι) : Prop :=
  let v := vectors call.vector
  match call.op with
  | .pushFrontVector j | .pushBackVector j => v.size + (vectors j).size < 2 ^ 63
  | .pushFront data | .pushBack data | .insertAt data _ => v.size + data.length < 2 ^ 63
  | .popFront _ | .popBack _ | .copyTo _ => True
  | .extend extraLength => v.size + extraLength < 2 ^ 63
  | .insertZerosAt length position =>
    v.size + length < 2 ^ 63 ∧ (position ≤ v.size ∨ length = 0 ∧ v.capacity = v.size)
  | .overwriteAt data position => min v.size position + data.length < 2 ^ 63
  | .crossFade j fadeLength => fadeLength + 1 < 2 ^ 31 ∧ v.size + ((vectors j).size - fadeLength) < 2 ^ 63

variable [DecidableEq ι]

/-- One call, and whether it stays inside of the memory. -/
def audioStep (vectors : ι → AudioVector) (call : AudioCall ι) : (ι → AudioVector) × Bool :=
  match call.result vectors with
  | some v => (Function.update vectors call.target v, true)
  | none => (vectors, false)

def listStep (lists : ι → List Int16) (call : AudioCall ι) : (ι → List Int16) × Unit :=
  (Function.update lists call.target (call.listResult lists), ())

def Refines (vectors : ι → AudioVector) (lists : ι → List Int16) : Prop := ∀ i, (vectors i).Holds (lists i)

variable {vectors : ι → AudioVector} {lists : ι → List Int16}

omit [DecidableEq ι] in
/-- **What an operation does.** -/
theorem result_holds {call : AudioCall ι} (h : Refines vectors lists) (hallowed : call.Allowed vectors)
    (hfits : call.Fits vectors) : ∃ v, call.result vectors = some v ∧ v.Holds (call.listResult lists) := by
  obtain ⟨i, op, fresh⟩ := call
  have hi := h i
  have hsize : ∀ j, (vectors j).size = (lists j).length := fun j => (h j).size_eq
  cases op with
  | pushFrontVector j =>
    simp only [AudioCall.Fits, hsize] at hfits
    exact AudioVector.pushFrontVector_holds fresh hi (h j) hfits
  | pushFront data =>
    simp only [AudioCall.Fits, hsize] at hfits
    obtain ⟨v, hv, hholds⟩ := AudioVector.insertAt_holds fresh hi data 0 hfits
    refine ⟨v, hv, ?_⟩
    rwa [inserted, List.take_zero, List.drop_zero, List.nil_append] at hholds
  | pushBackVector j =>
    simp only [AudioCall.Fits, hsize] at hfits
    exact AudioVector.pushBackVector_holds fresh hi (h j) hfits
  | pushBack data =>
    simp only [AudioCall.Fits, hsize] at hfits
    exact AudioVector.pushBack_holds fresh hi data hfits
  | popFront length => exact AudioVector.popFront_holds hi length
  | popBack length => exact ⟨_, rfl, AudioVector.popBack_holds hi length⟩
  | extend extraLength =>
    simp only [AudioCall.Fits, hsize] at hfits
    exact AudioVector.extend_holds fresh hi hfits
  | insertAt data position =>
    simp only [AudioCall.Fits, hsize] at hfits
    exact AudioVector.insertAt_holds fresh hi data position hfits
  | insertZerosAt length position =>
    simp only [AudioCall.Fits, hsize] at hfits
    exact AudioVector.insertZerosAt_holds fresh hi hfits.1 hfits.2
  | overwriteAt data position =>
    simp only [AudioCall.Fits, hsize] at hfits
    exact AudioVector.overwriteAt_holds fresh hi data position hfits
  | copyTo j => exact AudioVector.copyTo_holds fresh hi (h j)
  | crossFade j fadeLength =>
    simp only [AudioCall.Fits, AudioCall.Allowed, hsize] at hfits hallowed
    exact AudioVector.crossFade_holds fresh hi (h j) hallowed.2.1 hallowed.2.2 hfits.1 hfits.2

/-- **One call.** -/
theorem audioStep_refines {call : AudioCall ι} (h : Refines vectors lists) (hallowed : call.Allowed vectors)
    (hfits : call.Fits vectors) :
    (audioStep vectors call).2 = true ∧ Refines (audioStep vectors call).1 (listStep lists call).1 := by
  obtain ⟨v, hv, hholds⟩ := result_holds h hallowed hfits
  simp only [audioStep, hv, listStep, true_and]
  intro j
  by_cases hj : j = call.target
  · rw [hj, Function.update_self, Function.update_self]
    exact hholds
  · rw [Function.update_of_ne hj, Function.update_of_ne hj]
    exact h j

theorem run_refines {calls : List (AudioCall ι)} (h : Refines vectors lists)
    (hallowed : Machine.Meets audioStep (fun vectors call => call.Allowed vectors) vectors calls)
    (hfits : Machine.Meets audioStep (fun vectors call => call.Fits vectors) vectors calls) :
    (∀ ok ∈ Machine.trace audioStep vectors calls, ok = true) ∧
      Refines (Machine.run audioStep vectors calls) (Machine.run listStep lists calls) := by
  induction calls generalizing vectors lists with
  | nil => exact ⟨by simp [Machine.trace], h⟩
  | cons call calls ih =>
    obtain ⟨hok, hrefines⟩ := audioStep_refines h hallowed.1 hfits.1
    obtain ⟨hall, hrun⟩ := ih hrefines hallowed.2 hfits.2
    exact ⟨List.forall_mem_cons.2 ⟨hok, hall⟩, hrun⟩

/-- The vectors that there are at first: those with a size are zeros. -/
def constructed (fresh : Nat → Int16) (sizes : ι → Option Nat) : ι → AudioVector := fun i =>
  match sizes i with
  | none => .create fresh
  | some n => .createSize n

def constructedLists (sizes : ι → Option Nat) : ι → List Int16 := fun i => List.replicate ((sizes i).getD 0) 0

omit [DecidableEq ι] in
theorem constructed_refines (fresh : Nat → Int16) {sizes : ι → Option Nat}
    (hsizes : ∀ i n, sizes i = some n → n < 2 ^ 63) :
    Refines (constructed fresh sizes) (constructedLists sizes) := by
  intro i
  rw [constructed, constructedLists]
  rcases hsize : sizes i with _ | n
  · exact AudioVector.create_holds fresh
  · exact AudioVector.createSize_holds (hsizes i n hsize)

/-- **Audio vectors refine lists**: in every run in which zeros are not inserted behind the end of a vector and there is
memory, no call leaves the memory, and in every state the first samples of a vector are its list. -/
theorem audioRun_refines (fresh : Nat → Int16) (sizes : ι → Option Nat) (hsizes : ∀ i n, sizes i = some n → n < 2 ^ 63)
    (calls : List (AudioCall ι))
    (hallowed : Machine.Meets audioStep (fun vectors call => call.Allowed vectors) (constructed fresh sizes) calls)
    (hfits : Machine.Meets audioStep (fun vectors call => call.Fits vectors) (constructed fresh sizes) calls) :
    (∀ ok ∈ Machine.trace audioStep (constructed fresh sizes) calls, ok = true) ∧
    ∀ before after, calls = before ++ after → ∀ i,
      (Machine.run audioStep (constructed fresh sizes) before i).array.take
          (Machine.run audioStep (constructed fresh sizes) before i).size =
        Machine.run listStep (constructedLists sizes) before i ∧
      (Machine.run audioStep (constructed fresh sizes) before i).size =
        (Machine.run listStep (constructedLists sizes) before i).length ∧
      (Machine.run audioStep (constructed fresh sizes) before i).size ≤
        (Machine.run audioStep (constructed fresh sizes) before i).capacity := by
  have hstart := constructed_refines fresh hsizes
  refine ⟨(run_refines hstart hallowed hfits).1, ?_⟩
  rintro before after rfl i
  have hrun := (run_refines hstart (Machine.meets_append.1 hallowed).1 (Machine.meets_append.1 hfits).1).2 i
  exact ⟨hrun.contents, hrun.size_eq, hrun.size_le⟩

/-- Two samples, and a zero between them. -/
theorem audioRun_zero_between :
    (∀ ok ∈ Machine.trace audioStep (constructed (fun _ => 0) fun _ : Unit => none)
      [⟨(), .pushBack [1, 2], fun _ => 0⟩, ⟨(), .insertZerosAt 1 1, fun _ => 0⟩], ok = true) ∧
    ∀ before after, [(⟨(), .pushBack [1, 2], fun _ => 0⟩ : AudioCall Unit), ⟨(), .insertZerosAt 1 1, fun _ => 0⟩] =
        before ++ after → ∀ i,
      (Machine.run audioStep (constructed (fun _ => 0) fun _ : Unit => none) before i).array.take
          (Machine.run audioStep (constructed (fun _ => 0) fun _ : Unit => none) before i).size =
        Machine.run listStep (constructedLists fun _ : Unit => none) before i ∧
      (Machine.run audioStep (constructed (fun _ => 0) fun _ : Unit => none) before i).size =
        (Machine.run listStep (constructedLists fun _ : Unit => none) before i).length ∧
      (Machine.run audioStep (constructed (fun _ => 0) fun _ : Unit => none) before i).size ≤
        (Machine.run audioStep (constructed (fun _ => 0) fun _ : Unit => none) before i).capacity :=
  audioRun_refines (fun _ => 0) (fun _ : Unit => none) (by simp)
    [⟨(), .pushBack [1, 2], fun _ => 0⟩, ⟨(), .insertZerosAt 1 1, fun _ => 0⟩] ⟨trivial, trivial, trivial⟩
    ⟨show 0 + 2 < 2 ^ 63 by decide, ⟨by decide +kernel, .inl (by decide +kernel)⟩, trivial⟩

/-- A zero behind the end of an empty vector. -/
theorem not_audioRun_behind : ¬ ∀ calls : List (AudioCall Unit),
    Machine.Meets audioStep (fun vectors call => call.Allowed vectors) (constructed (fun _ => 0) fun _ => none) calls →
    ∀ ok ∈ Machine.trace audioStep (constructed (fun _ => 0) fun _ => none) calls, ok = true := by
  intro h
  have hbehind := AudioVector.insertZerosAt_behind (fun _ => 0) (AudioVector.create_holds fun _ => 0)
    (show [].length + 1 < 2 ^ 63 by decide) (show [].length < 1 by decide) (.inl (by decide))
  have hall := h [⟨(), .insertZerosAt 1 1, fun _ => 0⟩] ⟨trivial, trivial⟩
  simp [Machine.trace, audioStep, AudioCall.result, constructed, hbehind] at hall

end Runs

end WebRtc.NetEq
