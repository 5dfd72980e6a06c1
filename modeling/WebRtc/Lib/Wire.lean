import WebRtc.Lib.Bytes
import Mathlib.Data.List.Basic

/-!
# Fields on the wire

`At buf p bytes` says that `bytes` stand at position `p` of a buffer. A reader at `p` returns what a
writer has put there; what is written one after the other stands one after the other.
-/

namespace Bytes

/-! ## Writers -/

def be16 (x : UInt16) : List UInt8 := [hi16 x.toNat, lo16 x.toNat]

/-- The lower 24 bits. -/
def be24 (x : UInt32) : List UInt8 := [byte32 x 1, byte32 x 2, byte32 x 3]

def be32 (x : UInt32) : List UInt8 := [byte32 x 0, byte32 x 1, byte32 x 2, byte32 x 3]

@[simp] theorem be16_length (x : UInt16) : (be16 x).length = 2 := rfl
@[simp] theorem be24_length (x : UInt32) : (be24 x).length = 3 := rfl
@[simp] theorem be32_length (x : UInt32) : (be32 x).length = 4 := rfl

/-! ## Positions -/

def At (buf : List UInt8) (p : Nat) (bytes : List UInt8) : Prop := bytes <+: buf.drop p

variable {buf : List UInt8} {p : Nat}

theorem at_nil : At buf p [] := List.nil_prefix

theorem at_append {a b : List UInt8} : At buf p (a ++ b) ↔ At buf p a ∧ At buf (p + a.length) b := by
  unfold At
  rw [← List.drop_drop]
  constructor
  · rintro ⟨rest, h⟩
    rw [← h]
    refine ⟨⟨b ++ rest, (List.append_assoc _ _ _).symm⟩, ⟨rest, ?_⟩⟩
    rw [List.append_assoc, List.drop_left]
  · rintro ⟨⟨rest, h⟩, hb⟩
    rw [← h, List.drop_left] at hb
    obtain ⟨rest', h'⟩ := hb
    exact ⟨rest', by rw [← h, ← h', List.append_assoc]⟩

theorem at_cons {x : UInt8} {l : List UInt8} : At buf p (x :: l) ↔ At buf p [x] ∧ At buf (p + 1) l :=
  at_append (a := [x])

theorem At.byte {x : UInt8} (h : At buf p [x]) : byteAt buf p = x := by
  obtain ⟨rest, h⟩ := h
  have hx : (buf.drop p)[0]? = some x := by rw [← h]; rfl
  rw [List.getElem?_drop, Nat.add_zero] at hx
  rw [byteAt, List.getD_eq_getElem?_getD, hx, Option.getD_some]

theorem At.length_le {bytes : List UInt8} (h : At buf p bytes) (hp : p ≤ buf.length) :
    p + bytes.length ≤ buf.length := by
  have hle := List.IsPrefix.length_le h
  rw [List.length_drop] at hle
  omega

/-- A buffer that ends in `bytes`. -/
theorem at_suffix (pre bytes rest : List UInt8) : At (pre ++ bytes ++ rest) pre.length bytes := by
  rw [At, List.append_assoc, List.drop_left]
  exact List.prefix_append _ _

theorem at_zero (bytes rest : List UInt8) : At (bytes ++ rest) 0 bytes := List.prefix_append _ _

theorem At.bytes {bytes : List UInt8} (h : At buf p bytes) {i : Nat} (hi : i < bytes.length) :
    byteAt buf (p + i) = bytes[i] := by
  obtain ⟨rest, h⟩ := h
  have hx : (buf.drop p)[i]? = some bytes[i] := by
    rw [← h, List.getElem?_append_left hi, List.getElem?_eq_getElem hi]
  rw [List.getElem?_drop] at hx
  rw [byteAt, List.getD_eq_getElem?_getD, hx, Option.getD_some]

theorem byteAt_append {a b : List UInt8} {i : Nat} (h : i < a.length) : byteAt (a ++ b) i = byteAt a i := by
  rw [byteAt, byteAt, List.getD_eq_getElem?_getD, List.getD_eq_getElem?_getD, List.getElem?_append_left h]

theorem byteAt_take {i n : Nat} (h : i < n) : byteAt (buf.take n) i = byteAt buf i := by
  rw [byteAt, byteAt, List.getD_eq_getElem?_getD, List.getD_eq_getElem?_getD, List.getElem?_take_of_lt h]

theorem byteAt_drop (buf : List UInt8) (p i : Nat) : byteAt (buf.drop p) i = byteAt buf (p + i) := by
  rw [byteAt, byteAt, List.getD_eq_getElem?_getD, List.getD_eq_getElem?_getD, List.getElem?_drop]

theorem read16At_drop (buf : List UInt8) (p i : Nat) : read16At (buf.drop p) i = read16At buf (p + i) := by
  rw [read16At, read16At, byteAt_drop, byteAt_drop, Nat.add_assoc]

/-! ## Readers -/

theorem At.read16 {x : UInt16} (h : At buf p (be16 x)) : read16At buf p = x := by
  obtain ⟨h0, h1⟩ := at_cons.1 h
  rw [read16At, h0.byte, h1.byte, read16_write]
  apply UInt16.toNat_inj.1
  have := x.toNat_lt
  simp only [UInt16.toNat_ofNat']
  omega

theorem read16_byte32 (x : UInt32) : Bytes.read16 (byte32 x 2) (byte32 x 3) = x.toNat % 65536 := by
  simp only [Bytes.read16, byte32, UInt8.toNat_ofNat']
  omega

theorem At.read24 {x : UInt32} (h : At buf p (be24 x)) : (read24At buf p).toNat = x.toNat % 16777216 := by
  obtain ⟨h0, h⟩ := at_cons.1 h
  obtain ⟨h1, h2⟩ := at_cons.1 h
  rw [read24At, h0.byte, h1.byte, h2.byte, read16_byte32]
  simp only [byte32, UInt8.toNat_ofNat', UInt32.toNat_ofNat']
  omega

theorem At.read32 {x : UInt32} (h : At buf p (be32 x)) : read32At buf p = x := by
  obtain ⟨h0, h⟩ := at_cons.1 h
  obtain ⟨h1, h⟩ := at_cons.1 h
  obtain ⟨h2, h3⟩ := at_cons.1 h
  rw [read32At, h0.byte, h1.byte, h2.byte, h3.byte, read16_byte32]
  apply UInt32.toNat_inj.1
  have := x.toNat_lt
  simp only [Bytes.read16, byte32, UInt8.toNat_ofNat', UInt32.toNat_ofNat']
  omega

theorem be16_read16At (buf : List UInt8) (p : Nat) : be16 (read16At buf p) = [byteAt buf p, byteAt buf (p + 1)] := by
  have hlt := read16_lt (byteAt buf p) (byteAt buf (p + 1))
  have hnat : (read16At buf p).toNat = Bytes.read16 (byteAt buf p) (byteAt buf (p + 1)) := by
    rw [read16At, UInt16.toNat_ofNat']
    exact Nat.mod_eq_of_lt hlt
  rw [be16, hnat, hi16_read, lo16_read]

/-! ## Writing in place -/

/-- `bytes` are written over what stands at `p`. -/
def put (buf : List UInt8) (p : Nat) (bytes : List UInt8) : List UInt8 :=
    buf.take p ++ bytes ++ buf.drop (p + bytes.length)

theorem put_append (pre : List UInt8) {old bytes : List UInt8} (post : List UInt8) (h : old.length = bytes.length) :
    put (pre ++ old ++ post) pre.length bytes = pre ++ bytes ++ post := by
  have hdrop : (pre ++ old ++ post).drop (pre.length + bytes.length) = post := by
    rw [← h, ← List.length_append, List.drop_left]
  rw [put, hdrop, List.append_assoc pre old post, List.take_left]

/-- What stands there already. -/
theorem At.put {bytes : List UInt8} (h : At buf p bytes) : put buf p bytes = buf := by
  obtain ⟨rest, h⟩ := h
  have hrest : buf.drop (p + bytes.length) = rest := by rw [← List.drop_drop, ← h, List.drop_left]
  rw [Bytes.put, hrest, List.append_assoc, h, List.take_append_drop]

theorem put_length {bytes : List UInt8} (h : p + bytes.length ≤ buf.length) :
    (put buf p bytes).length = buf.length := by
  simp only [put, List.length_append, List.length_take, List.length_drop]
  omega

/-- Nothing else changes. -/
theorem byteAt_put {bytes : List UInt8} {i : Nat} (h : p + bytes.length ≤ buf.length)
    (hi : i < p ∨ p + bytes.length ≤ i) :
    byteAt (put buf p bytes) i = byteAt buf i := by
  have hp : p ≤ buf.length := by omega
  simp only [byteAt, List.getD_eq_getElem?_getD, put]
  congr 1
  rcases hi with hi | hi
  · rw [List.append_assoc, List.getElem?_append_left (by simp; omega), List.getElem?_take_of_lt hi]
  · rw [List.getElem?_append_right (by simp; omega), List.getElem?_drop]
    simp only [List.length_append, List.length_take, Nat.min_eq_left hp]
    congr 1
    omega

end Bytes
