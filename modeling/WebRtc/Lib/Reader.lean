import WebRtc.Lib.Wire

/-!
# Readers

A reader takes what it wants from the front of the bytes, or it fails. `Reads r bytes a`: where `bytes`
stand in front, `r` takes exactly these and returns `a`. A reader that is put together from others reads
what they read, one after the other.
-/

namespace Bytes

/-- The upper and the lower half of a 64-bit number. -/
def upper32 (x : UInt64) : UInt32 := UInt32.ofNat (x.toNat / 4294967296)
def lower32 (x : UInt64) : UInt32 := UInt32.ofNat x.toNat

def be64 (x : UInt64) : List UInt8 := be32 (upper32 x) ++ be32 (lower32 x)

@[simp] theorem be64_length (x : UInt64) : (be64 x).length = 8 := rfl

theorem flatMap_length {α : Type} {w : α → List UInt8} {n : Nat} (hw : ∀ a, (w a).length = n) (l : List α) :
    (l.flatMap w).length = l.length * n := by
  induction l with
  | nil => simp
  | cons a rest ih =>
    rw [List.flatMap_cons, List.length_append, hw, ih, List.length_cons, Nat.succ_mul, Nat.add_comm]

abbrev Reader := StateT (List UInt8) Option

namespace Reader

def readBytes (len : Nat) : Reader (List UInt8) := fun buf =>
  if len ≤ buf.length then some (buf.take len, buf.drop len) else none

def readVector (n : Nat) : Reader (Vector UInt8 n) := fun buf =>
  if h : n ≤ buf.length then some (⟨(buf.take n).toArray, by simp [h]⟩, buf.drop n) else none

def readUInt8 : Reader UInt8 := do
  let bytes ← readBytes 1
  return byteAt bytes 0

def readUInt16 : Reader UInt16 := do
  let bytes ← readBytes 2
  return read16At bytes 0

def readUInt32 : Reader UInt32 := do
  let bytes ← readBytes 4
  return read32At bytes 0

def readUInt64 : Reader UInt64 := do
  let hi ← readUInt32
  let lo ← readUInt32
  return UInt64.ofNat (hi.toNat * 4294967296 + lo.toNat)

def consume (size : Nat) : Reader Unit := do
  let _ ← readBytes size

/-- As often as `n` says. -/
def times {α : Type} (r : Reader α) : Nat → Reader (List α)
  | 0 => pure []
  | n + 1 => do
    let a ← r
    let rest ← times r n
    return a :: rest

end Reader

/-! ## What is read -/

def Reads {α : Type} (r : Reader α) (bytes : List UInt8) (a : α) : Prop :=
  ∀ rest, r.run (bytes ++ rest) = some (a, rest)

namespace Reads

variable {α β : Type} {r : Reader α} {bytes more : List UInt8} {a : α} {b : β}

theorem pure (a : α) : Reads (pure a) [] a := fun _ => rfl

theorem run_bind (hr : Reads r bytes a) (f : α → Reader β) (rest : List UInt8) :
    (r >>= f).run (bytes ++ rest) = (f a).run rest := by
  rw [StateT.run_bind, hr]
  rfl

theorem bind {f : α → Reader β} (hr : Reads r bytes a) (hf : Reads (f a) more b) :
    Reads (r >>= f) (bytes ++ more) b := by
  intro rest
  rw [List.append_assoc, hr.run_bind]
  exact hf rest

/-- What follows reads nothing. -/
theorem returns {f : α → Reader β} (hr : Reads r bytes a) (hf : Reads (f a) [] b) : Reads (r >>= f) bytes b := by
  have h := hr.bind hf
  rwa [List.append_nil] at h

theorem readBytes (bytes : List UInt8) : Reads (Reader.readBytes bytes.length) bytes bytes := by
  intro rest
  have hle : bytes.length ≤ (bytes ++ rest).length := by
    rw [List.length_append]
    exact Nat.le_add_right _ _
  change (if _ then _ else _) = _
  rw [if_pos hle, List.take_left, List.drop_left]

theorem readVector {n : Nat} (v : Vector UInt8 n) : Reads (Reader.readVector n) v.toList v := by
  intro rest
  have hlen : v.toList.length = n := Vector.length_toList
  have hle : n ≤ (v.toList ++ rest).length := by
    rw [List.length_append, hlen]
    exact Nat.le_add_right _ _
  change (if h : _ then _ else _) = _
  rw [dif_pos hle]
  have htake : (v.toList ++ rest).take n = v.toList := List.take_left' hlen
  have hdrop : (v.toList ++ rest).drop n = rest := List.drop_left' hlen
  rw [hdrop]
  congr 2
  apply Vector.toArray_inj.1
  change ((v.toList ++ rest).take n).toArray = v.toArray
  rw [htake, Vector.toList, Array.toArray_toList]

theorem readUInt8 (x : UInt8) : Reads Reader.readUInt8 [x] x :=
  (readBytes [x]).returns (pure x)

theorem readUInt16 (x : UInt16) : Reads Reader.readUInt16 (be16 x) x := by
  have hx : read16At (be16 x) 0 = x := At.read16 (by simpa using at_zero (be16 x) [])
  have h : Reads Reader.readUInt16 (be16 x) (read16At (be16 x) 0) := (readBytes (be16 x)).returns (pure _)
  rwa [hx] at h

theorem readUInt32 (x : UInt32) : Reads Reader.readUInt32 (be32 x) x := by
  have hx : read32At (be32 x) 0 = x := At.read32 (by simpa using at_zero (be32 x) [])
  have h : Reads Reader.readUInt32 (be32 x) (read32At (be32 x) 0) := (readBytes (be32 x)).returns (pure _)
  rwa [hx] at h

theorem readUInt64 (x : UInt64) : Reads Reader.readUInt64 (be64 x) x := by
  have hjoin : UInt64.ofNat ((upper32 x).toNat * 4294967296 + (lower32 x).toNat) = x := by
    apply UInt64.toNat_inj.1
    have := x.toNat_lt
    simp only [upper32, lower32, UInt64.toNat_ofNat', UInt32.toNat_ofNat']
    omega
  have h : Reads Reader.readUInt64 (be64 x) (UInt64.ofNat ((upper32 x).toNat * 4294967296 + (lower32 x).toNat)) :=
    (readUInt32 (upper32 x)).bind ((readUInt32 (lower32 x)).returns (pure _))
  rwa [hjoin] at h

theorem consume (bytes : List UInt8) : Reads (Reader.consume bytes.length) bytes () :=
  (readBytes bytes).returns (pure ())

theorem times {w : α → List UInt8} (hr : ∀ a, Reads r (w a) a) (l : List α) :
    Reads (Reader.times r l.length) (l.flatMap w) l := by
  induction l with
  | nil => exact pure []
  | cons a rest ih =>
    rw [List.flatMap_cons]
    exact (hr a).bind (ih.returns (pure (a :: rest)))

end Reads

/-! ## What was read -/

/-- The first `n` bytes were taken from `buf`. -/
structure Took (buf rest : List UInt8) (n : Nat) : Prop where
  rest : rest = buf.drop n
  le : n ≤ buf.length

namespace Took

variable {α β : Type} {r : Reader α} {buf mid rest : List UInt8} {n m : Nat} {a : α} {b : β}

theorem refl (buf : List UInt8) : Took buf buf 0 := ⟨rfl, Nat.zero_le _⟩

theorem trans (h : Took buf mid n) (h' : Took mid rest m) : Took buf rest (n + m) := by
  have hle := h'.le
  rw [h.rest, List.length_drop] at hle
  exact ⟨by rw [h'.rest, h.rest, List.drop_drop], by have := h.le; omega⟩

theorem length (h : Took buf rest n) : rest.length + n = buf.length := by
  have hle := h.le
  rw [h.rest, List.length_drop]
  omega

theorem of_pure (h : (Pure.pure a : Reader α).run buf = some (a, rest)) : rest = buf :=
  (Prod.mk.inj (Option.some.inj h)).2.symm

theorem of_bind {f : α → Reader β} (h : (r >>= f).run buf = some (b, rest)) :
    ∃ a mid, r.run buf = some (a, mid) ∧ (f a).run mid = some (b, rest) := by
  rw [StateT.run_bind] at h
  obtain ⟨⟨a, mid⟩, hr, hf⟩ := Option.bind_eq_some_iff.1 h
  exact ⟨a, mid, hr, hf⟩

theorem of_readBytes {bytes : List UInt8} (h : (Reader.readBytes n).run buf = some (bytes, rest)) :
    Took buf rest n ∧ bytes = buf.take n := by
  change (if _ then _ else _) = _ at h
  split at h
  · obtain ⟨rfl, rfl⟩ := Prod.mk.inj (Option.some.inj h)
    exact ⟨⟨rfl, ‹_›⟩, rfl⟩
  · cases h

/-- A reader that makes something of what another one takes. -/
theorem of_map {f : α → β} (hr : ∀ a rest, r.run buf = some (a, rest) → Took buf rest n)
    (h : (r >>= fun a => Pure.pure (f a)).run buf = some (b, rest)) : Took buf rest n := by
  obtain ⟨a, mid, ha, hb⟩ := of_bind h
  obtain ⟨-, rfl⟩ := Prod.mk.inj (Option.some.inj hb)
  exact hr a mid ha

theorem of_readVector {v : Vector UInt8 n} (h : (Reader.readVector n).run buf = some (v, rest)) : Took buf rest n := by
  change (if h : _ then _ else _) = _ at h
  split at h
  · obtain ⟨-, rfl⟩ := Prod.mk.inj (Option.some.inj h)
    exact ⟨rfl, ‹_›⟩
  · cases h

theorem of_readUInt8 {x : UInt8} (h : Reader.readUInt8.run buf = some (x, rest)) : Took buf rest 1 :=
  of_map (fun _ _ h => (of_readBytes h).1) h

theorem of_readUInt16 {x : UInt16} (h : Reader.readUInt16.run buf = some (x, rest)) :
    Took buf rest 2 ∧ x = read16At buf 0 := by
  obtain ⟨bytes, mid, hbytes, hx⟩ := of_bind h
  obtain ⟨htook, rfl⟩ := of_readBytes hbytes
  obtain ⟨rfl, rfl⟩ := Prod.mk.inj (Option.some.inj hx)
  refine ⟨htook, ?_⟩
  rw [read16At, read16At, byteAt_take (by decide), byteAt_take (by decide)]

theorem of_readUInt32 {x : UInt32} (h : Reader.readUInt32.run buf = some (x, rest)) : Took buf rest 4 :=
  of_map (fun _ _ h => (of_readBytes h).1) h

theorem of_readUInt64 {x : UInt64} (h : Reader.readUInt64.run buf = some (x, rest)) : Took buf rest 8 := by
  obtain ⟨hi, mid, hhi, h⟩ := of_bind h
  exact (of_readUInt32 hhi).trans (of_map (fun _ _ h => of_readUInt32 h) h)

theorem of_consume (h : (Reader.consume n).run buf = some ((), rest)) : Took buf rest n :=
  of_map (fun _ _ h => (of_readBytes h).1) h

/-- Nothing can be taken of too few bytes only. -/
theorem short_of_consume (h : (Reader.consume n).run buf = none) : buf.length < n := by
  by_contra hle
  have hread : (Reader.readBytes n).run buf = some (buf.take n, buf.drop n) := if_pos (Nat.not_lt.1 hle)
  rw [Reader.consume, StateT.run_bind, hread] at h
  cases h

theorem of_times {l : List α} (hr : ∀ buf a rest, r.run buf = some (a, rest) → Took buf rest m)
    (h : (Reader.times r n).run buf = some (l, rest)) : Took buf rest (n * m) := by
  induction n generalizing buf l with
  | zero =>
    obtain ⟨-, rfl⟩ := Prod.mk.inj (Option.some.inj h)
    rw [Nat.zero_mul]
    exact refl _
  | succ n ih =>
    obtain ⟨a, mid, ha, h⟩ := of_bind h
    obtain ⟨l', mid', hl, h⟩ := of_bind h
    obtain ⟨-, rfl⟩ := Prod.mk.inj (Option.some.inj h)
    rw [Nat.succ_mul, Nat.add_comm]
    exact (hr _ _ _ ha).trans (ih hl)

end Took

end Bytes
