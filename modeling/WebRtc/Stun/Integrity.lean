import WebRtc.Stun.RoundTrip

/-!
# MESSAGE-INTEGRITY and FINGERPRINT

| here | there |
| --- | --- |
| `validateMessageIntegrity` | `stun.cc:130-206` |
| `addMessageIntegrity` | `stun.cc:208-243` |
| `validateFingerprint`, `addFingerprint` | `stun.cc:245-294` |

The sender hashes what it has written when the attribute is added, with the length of the message at
that time. The receiver puts this length back when other attributes follow.
-/

namespace WebRtc.Stun

open Bytes

-- HMAC-SHA1 of a text under a key, and CRC-32 of a text.
variable (hmac : List UInt8 → List UInt8 → Vector UInt8 20) (crc32 : List UInt8 → UInt32)

def kStunMessageIntegritySize : Nat := 20
def stunFingerprintXorValue : UInt32 := 0x5354554E

/-! ## The sender -/

namespace StunMessage

/-- The attribute is added with a dummy value, which the HMAC of what is written before it replaces. -/
def addMessageIntegrity (cls : MessageClass) (m : StunMessage) (key : List UInt8) : Option StunMessage := do
  let dummy : StunAttribute :=
    { type := messageIntegrity, value := .byteString (List.replicate kStunMessageIntegritySize 0x30) }
  let added ← m.addAttribute cls dummy
  let buf ← added.write
  let msgLenForHmac := buf.length - kStunAttributeHeaderSize - dummy.value.length.toNat
  let mac := hmac key (buf.take msgLenForHmac)
  return { added with attrs := m.attrs ++ [{ type := messageIntegrity, value := .byteString mac.toList }] }

def addFingerprint (cls : MessageClass) (m : StunMessage) : Option StunMessage := do
  let dummy : StunAttribute := { type := fingerprint, value := .uint32 0 }
  let added ← m.addAttribute cls dummy
  let buf ← added.write
  let msgLenForCrc32 := buf.length - kStunAttributeHeaderSize - dummy.value.length.toNat
  let c := crc32 (buf.take msgLenForCrc32)
  return { added with attrs := m.attrs ++ [{ type := fingerprint, value := .uint32 (c ^^^ stunFingerprintXorValue) }] }

end StunMessage

/-! ## The receiver -/

/-- `len` bytes from `p` on. -/
def bytesAt (data : List UInt8) (p len : Nat) : List UInt8 := (List.range len).map fun i => byteAt data (p + i)

/-- The position where the walk over the attributes stops at a MESSAGE-INTEGRITY of the right length. -/
def findIntegrity (data : List UInt8) (size : Nat) : Nat → Nat → Option Nat
  | 0, _ => none
  | fuel + 1, currentPos =>
    if currentPos < size then
      let attrType := read16At data currentPos
      let attrLength := (read16At data (currentPos + 2)).toNat
      if attrType = messageIntegrity then
        if attrLength ≠ kStunMessageIntegritySize ∨ size < currentPos + attrLength then none else some currentPos
      else findIntegrity data size fuel (currentPos + kStunAttributeHeaderSize + padded attrLength)
    else none

/-- The end of a MESSAGE-INTEGRITY attribute. -/
def miEnd (miPos : Nat) : Nat := miPos + kStunAttributeHeaderSize + kStunMessageIntegritySize

/-- `data` may go on behind the `size` bytes of the message. -/
def validateMessageIntegrity (data : List UInt8) (size : Nat) (password : List UInt8) : Bool :=
  if size % 4 ≠ 0 then false
  else if size ≠ (read16At data 2).toNat + kStunHeaderSize then false
  else match findIntegrity data size size kStunHeaderSize with
    | none => false
    | some miPos =>
      let tempData := bytesAt data 0 miPos
      let tempData :=
        if miEnd miPos < size then
          let extraOffset := size - miEnd miPos
          put tempData 2 (be16 (UInt16.ofNat (size - extraOffset - kStunHeaderSize)))
        else tempData
      bytesAt data (miPos + kStunAttributeHeaderSize) kStunMessageIntegritySize == (hmac password tempData).toList

def validateFingerprint (data : List UInt8) (size : Nat) : Bool :=
  let fingerprintAttrSize := kStunAttributeHeaderSize + 4
  if size % 4 ≠ 0 ∨ size < kStunHeaderSize + fingerprintAttrSize then false
  else if read32At data 4 ≠ kStunMagicCookie then false
  else
    let attrData := size - fingerprintAttrSize
    if read16At data attrData ≠ fingerprint ∨ read16At data (attrData + 2) ≠ 4 then false
    else (read32At data (attrData + kStunAttributeHeaderSize) ^^^ stunFingerprintXorValue) == crc32
      (bytesAt data 0 attrData)

theorem bytesAt_length (data : List UInt8) (p len : Nat) : (bytesAt data p len).length = len := by
  simp [bytesAt]

theorem bytesAt_add (data : List UInt8) (p m n : Nat) :
    bytesAt data p (m + n) = bytesAt data p m ++ bytesAt data (p + m) n := by
  simp only [bytesAt, List.range_add, List.map_append, List.map_map, Function.comp_def, Nat.add_assoc]

theorem bytesAt_eq {data bytes : List UInt8} {p : Nat} (h : At data p bytes) : bytesAt data p bytes.length = bytes := by
  apply List.ext_getElem (bytesAt_length _ _ _)
  intro i _ hi
  simp only [bytesAt, List.getElem_map, List.getElem_range]
  exact h.bytes hi

/-! ## The walk -/

/-- From the attribute at `p`, over attributes other than MESSAGE-INTEGRITY, to the one at `q`. -/
inductive Walk (data : List UInt8) : Nat → Nat → Prop
  | here (p : Nat) : Walk data p p
  | skip {p q : Nat} (other : read16At data p ≠ messageIntegrity)
      (rest : Walk data (p + kStunAttributeHeaderSize + padded (read16At data (p + 2)).toNat) q) : Walk data p q

/-- The first MESSAGE-INTEGRITY attribute, with a value of 20 bytes. -/
structure FirstIntegrity (data : List UInt8) (pos : Nat) : Prop where
  walk : Walk data kStunHeaderSize pos
  type : read16At data pos = messageIntegrity
  length : (read16At data (pos + 2)).toNat = kStunMessageIntegritySize

section Walks

variable {data : List UInt8} {size p q fuel : Nat}

theorem padded_mod (n : Nat) : padded n % 4 = 0 := by
  unfold padded
  split <;> omega

theorem Walk.mod (h : Walk data p q) : q % 4 = p % 4 ∧ p ≤ q := by
  induction h with
  | here p => exact ⟨rfl, Nat.le_refl _⟩
  | @skip p q other rest ih =>
    have hpad := padded_mod (read16At data (p + 2)).toNat
    unfold kStunAttributeHeaderSize at ih
    omega

theorem find_some (h : findIntegrity data size fuel p = some q) :
    Walk data p q ∧ read16At data q = messageIntegrity ∧ (read16At data (q + 2)).toNat = kStunMessageIntegritySize ∧
      q + kStunMessageIntegritySize ≤ size := by
  induction fuel generalizing p with
  | zero => cases h
  | succ fuel ih =>
    unfold findIntegrity at h
    split at h
    · dsimp only at h
      split at h
      · rename_i htype
        split at h
        · cases h
        · rename_i hlen
          obtain rfl := Option.some.inj h
          rcases not_or.1 hlen with ⟨hlen, hsize⟩
          have hlen := not_not.1 hlen
          rw [hlen] at hsize
          exact ⟨.here _, htype, hlen, Nat.not_lt.1 hsize⟩
      · rename_i htype
        obtain ⟨hwalk, hrest⟩ := ih h
        exact ⟨.skip htype hwalk, hrest⟩
    · cases h

theorem find_of_walk (h : Walk data p q) (htype : read16At data q = messageIntegrity)
    (hlen : (read16At data (q + 2)).toNat = kStunMessageIntegritySize) (hsize : q + kStunMessageIntegritySize ≤ size)
    (hfuel : size ≤ p + fuel) : findIntegrity data size fuel p = some q := by
  induction h generalizing fuel with
  | here p =>
    unfold kStunMessageIntegritySize at hsize
    cases fuel with
    | zero => omega
    | succ fuel =>
      have hp : p < size := by omega
      have hgood : ¬ ((read16At data (p + 2)).toNat ≠ kStunMessageIntegritySize ∨
          size < p + (read16At data (p + 2)).toNat) := by
        rw [hlen]
        unfold kStunMessageIntegritySize
        omega
      rw [findIntegrity, if_pos hp, if_pos htype, if_neg hgood]
  | @skip p q other rest ih =>
    have hle := rest.mod.2
    unfold kStunMessageIntegritySize kStunAttributeHeaderSize at *
    cases fuel with
    | zero => omega
    | succ fuel =>
      have hp : p < size := by omega
      rw [findIntegrity, if_pos hp, if_neg other]
      exact ih htype hlen hsize (by omega)

end Walks

/-! ## What is accepted -/

/-- The first MESSAGE-INTEGRITY attribute lies in the string, and its value is the HMAC of what precedes
it, with the length of a message that ends with the attribute. -/
def Authentic (data : List UInt8) (size : Nat) (password : List UInt8) : Prop :=
  ∃ pos, FirstIntegrity data pos ∧ miEnd pos ≤ size ∧
    bytesAt data (pos + kStunAttributeHeaderSize) kStunMessageIntegritySize =
      (hmac password (put (bytesAt data 0 pos) 2 (be16 (UInt16.ofNat (miEnd pos - kStunHeaderSize))))).toList

/-- The first MESSAGE-INTEGRITY attribute has its last four bytes behind the end of the string, and the
20 bytes there are the HMAC of what precedes it as it is. -/
structure Truncated (data : List UInt8) (size : Nat) (password : List UInt8) : Prop where
  mod : size % 4 = 0
  length : size = (read16At data 2).toNat + kStunHeaderSize
  first : FirstIntegrity data (size - kStunMessageIntegritySize)
  mac : bytesAt data (size - kStunMessageIntegritySize + kStunAttributeHeaderSize) kStunMessageIntegritySize =
    (hmac password (bytesAt data 0 (size - kStunMessageIntegritySize))).toList

section Accepted

variable {data password : List UInt8} {size pos : Nat}

theorem FirstIntegrity.find (h : FirstIntegrity data pos) (hsize : pos + kStunMessageIntegritySize ≤ size) :
    findIntegrity data size size kStunHeaderSize = some pos :=
  find_of_walk h.walk h.type h.length hsize (Nat.le_add_left _ _)

theorem FirstIntegrity.mod (h : FirstIntegrity data pos) : pos % 4 = 0 ∧ kStunHeaderSize ≤ pos := by
  have := h.walk.mod
  unfold kStunHeaderSize at *
  omega

/-- The length that is put back when nothing follows is the one that stands there. -/
theorem put_length_field (hpos : 4 ≤ pos) : put (bytesAt data 0 pos) 2 (be16 (read16At data 2)) =
    bytesAt data 0 pos := by
  obtain ⟨rest, rfl⟩ := Nat.exists_eq_add_of_le hpos
  have hsplit : bytesAt data 0 (4 + rest) = bytesAt data 0 2 ++ be16 (read16At data 2) ++ bytesAt data 4 rest := by
    rw [be16_read16At]
    exact bytesAt_add data 0 4 rest
  have hat : At (bytesAt data 0 (4 + rest)) 2 (be16 (read16At data 2)) := by
    rw [hsplit]
    exact at_suffix (bytesAt data 0 2) _ _
  exact hat.put

/-- What the receiver takes for the text that was hashed. -/
theorem validate_iff (h : findIntegrity data size size kStunHeaderSize = some pos) (hmod : size % 4 = 0)
    (hlen : size = (read16At data 2).toNat + kStunHeaderSize) (hpos : kStunHeaderSize ≤ pos) (hend : miEnd pos ≤ size) :
    validateMessageIntegrity hmac data size password = true ↔
      bytesAt data (pos + kStunAttributeHeaderSize) kStunMessageIntegritySize =
        (hmac password (put (bytesAt data 0 pos) 2 (be16 (UInt16.ofNat (miEnd pos - kStunHeaderSize))))).toList := by
  unfold validateMessageIntegrity
  rw [if_neg (not_not.2 hmod), if_neg (not_not.2 hlen), h]
  dsimp only
  rw [beq_iff_eq]
  by_cases hlast : miEnd pos < size
  · have hback : size - (size - miEnd pos) = miEnd pos := Nat.sub_sub_self hend
    rw [if_pos hlast, hback]
  · have heq : miEnd pos = size := Nat.le_antisymm hend (Nat.not_lt.1 hlast)
    have hfield : UInt16.ofNat (miEnd pos - kStunHeaderSize) = read16At data 2 := by
      rw [heq, hlen, Nat.add_sub_cancel, UInt16.ofNat_toNat]
    have h4 : 4 ≤ pos := Nat.le_trans (by decide) hpos
    rw [if_neg hlast, hfield, put_length_field h4]

theorem validate_some (h : validateMessageIntegrity hmac data size password = true) :
    size % 4 = 0 ∧ size = (read16At data 2).toNat + kStunHeaderSize ∧
        ∃ pos, findIntegrity data size size kStunHeaderSize = some pos := by
  unfold validateMessageIntegrity at h
  split at h
  · cases h
  · rename_i hmod
    split at h
    · cases h
    · rename_i hlen
      refine ⟨not_not.1 hmod, not_not.1 hlen, ?_⟩
      split at h
      · cases h
      · rename_i pos hfind
        exact ⟨pos, hfind⟩

theorem Truncated.validate (h : Truncated hmac data size password) :
    validateMessageIntegrity hmac data size password = true := by
  have hsize : kStunMessageIntegritySize ≤ size := h.length ▸ Nat.le_add_left _ _
  have hfind := h.first.find (Nat.le_of_eq (Nat.sub_add_cancel hsize))
  have hend : ¬ miEnd (size - kStunMessageIntegritySize) < size := by
    unfold miEnd kStunAttributeHeaderSize
    omega
  unfold validateMessageIntegrity
  rw [if_neg (not_not.2 h.mod), if_neg (not_not.2 h.length), hfind]
  dsimp only
  rw [if_neg hend, beq_iff_eq]
  exact h.mac

/-- Only a truncated attribute is accepted for another text. -/
theorem accepted_iff : (validateMessageIntegrity hmac data size password = true → Authentic hmac data size password) ↔
    ¬ Truncated hmac data size password := by
  constructor
  · intro h htrunc
    obtain ⟨pos, hfirst, hend, -⟩ := h htrunc.validate
    have hsize : kStunMessageIntegritySize ≤ size := htrunc.length ▸ Nat.le_add_left _ _
    have hfind := htrunc.first.find (Nat.le_of_eq (Nat.sub_add_cancel hsize))
    have hpos := hfirst.find (Nat.le_trans (Nat.add_le_add_right (Nat.le_add_right _ _) _) hend)
    rw [hfind] at hpos
    obtain rfl := Option.some.inj hpos
    unfold miEnd kStunAttributeHeaderSize at hend
    omega
  · intro htrunc hvalid
    obtain ⟨hmod, hlen, pos, hfind⟩ := validate_some hmac hvalid
    obtain ⟨hwalk, htype, hlength, hin⟩ := find_some hfind
    have hfirst : FirstIntegrity data pos := ⟨hwalk, htype, hlength⟩
    have hpos := hfirst.mod
    by_cases hend : miEnd pos ≤ size
    · exact ⟨pos, hfirst, hend, (validate_iff hmac hfind hmod hlen hpos.2 hend).1 hvalid⟩
    · have heq : size - kStunMessageIntegritySize = pos := by
        unfold miEnd kStunAttributeHeaderSize kStunMessageIntegritySize at *
        omega
      refine absurd ⟨hmod, hlen, heq ▸ hfirst, ?_⟩ htrunc
      unfold validateMessageIntegrity at hvalid
      rw [if_neg (not_not.2 hmod), if_neg (not_not.2 hlen), hfind] at hvalid
      dsimp only at hvalid
      rw [if_neg fun hlt => hend (Nat.le_of_lt hlt), beq_iff_eq] at hvalid
      rw [heq]
      exact hvalid

end Accepted

/-! ## What is sent -/

section Sent

variable {cls : MessageClass} {m m' : StunMessage} {owner : TransactionId}
    {attrs more : List StunAttribute} {attr : StunAttribute}
  {key bytes data : List UInt8}

theorem writeAttrs_append (hw : writeAttrs owner (attrs ++ more) = some bytes) :
    ∃ front back, writeAttrs owner attrs = some front ∧ writeAttrs owner more = some back ∧ bytes = front ++ back := by
  induction attrs generalizing bytes with
  | nil => exact ⟨[], bytes, rfl, hw, rfl⟩
  | cons attr attrs ih =>
    obtain ⟨value, rest, hvalue, hrest, rfl⟩ := writeAttrs_cons hw
    obtain ⟨front, back, hfront, hback, rfl⟩ := ih hrest
    refine ⟨be16 attr.type ++ be16 attr.value.length ++ value ++ front, back, ?_, hback, (List.append_assoc _ _ _).symm⟩
    rw [writeAttrs, hvalue, hfront]
    rfl

theorem writeAttrs_last (hw : writeAttrs owner (attrs ++ [attr]) = some bytes) :
    ∃ front value, writeAttrs owner attrs = some front ∧ attr.value.write owner = some value ∧
      bytes = front ++ (be16 attr.type ++ be16 attr.value.length ++ value) := by
  obtain ⟨front, back, hfront, hback, rfl⟩ := writeAttrs_append hw
  obtain ⟨value, rest, hvalue, hrest, rfl⟩ := writeAttrs_cons hback
  obtain rfl := Option.some.inj hrest
  exact ⟨front, value, hfront, hvalue, by rw [List.append_nil]⟩

theorem write_some (hw : m.write = some bytes) :
    ∃ front, writeAttrs m.transactionId m.attrs = some front ∧
      bytes = StunMessage.writeHeader m.type m.length m.transactionId ++ front := by
  simp only [StunMessage.write, Option.bind_eq_bind, Option.bind_eq_some_iff, Option.pure_def, Option.some.injEq] at hw
  obtain ⟨front, hfront, rfl⟩ := hw
  exact ⟨front, hfront, rfl⟩

/-- What is hashed is written in front of the last attribute. -/
theorem take_front {front last : List UInt8} {m n : Nat} (h : last.length = m + n) :
    (front ++ last).take ((front ++ last).length - m - n) = front := by
  have hlen : (front ++ last).length - m - n = front.length := by
    rw [List.length_append]
    omega
  rw [hlen, List.take_left]

/-- The HMAC is that of the message so far, with a length that counts the new attribute. -/
theorem addMessageIntegrity_some (h : m.addMessageIntegrity hmac cls key = some m') :
    ∃ front, writeAttrs m.transactionId m.attrs = some front ∧
      m' = { m with
        attrs := m.attrs ++ [{ type := messageIntegrity, value := .byteString (hmac key
          (StunMessage.writeHeader m.type (m.length + 24) m.transactionId ++ front)).toList }]
        length := m.length + 24 } := by
  simp only [StunMessage.addMessageIntegrity, Option.bind_eq_bind, Option.bind_eq_some_iff, Option.pure_def,
    Option.some.injEq] at h
  obtain ⟨added, hadded, buf, hbuf, rfl⟩ := h
  obtain ⟨-, rfl⟩ := addAttribute_some hadded
  obtain ⟨body, hbody, rfl⟩ := write_some hbuf
  obtain ⟨front, value, hfront, hvalue, rfl⟩ := writeAttrs_last hbody
  obtain rfl := Option.some.inj hvalue
  refine ⟨front, hfront, ?_⟩
  rw [← List.append_assoc, take_front (by rfl)]
  rfl

theorem addFingerprint_some (h : m.addFingerprint crc32 cls = some m') :
    ∃ front, writeAttrs m.transactionId m.attrs = some front ∧
      m' = { m with
        attrs := m.attrs ++ [{ type := fingerprint, value := .uint32 (crc32
          (StunMessage.writeHeader m.type (m.length + 8) m.transactionId ++ front) ^^^ stunFingerprintXorValue) }]
        length := m.length + 8 } := by
  simp only [StunMessage.addFingerprint, Option.bind_eq_bind, Option.bind_eq_some_iff, Option.pure_def,
    Option.some.injEq] at h
  obtain ⟨added, hadded, buf, hbuf, rfl⟩ := h
  obtain ⟨-, rfl⟩ := addAttribute_some hadded
  obtain ⟨body, hbody, rfl⟩ := write_some hbuf
  obtain ⟨front, value, hfront, hvalue, rfl⟩ := writeAttrs_last hbody
  obtain rfl := Option.some.inj hvalue
  refine ⟨front, hfront, ?_⟩
  rw [← List.append_assoc, take_front (by rfl)]
  rfl

/-- The receiver walks over what was written attribute by attribute. -/
theorem walk_attrs {p : Nat} (hw : writeAttrs owner attrs = some bytes) (htotal : total attrs < 65536)
    (hother : ∀ attr ∈ attrs, attr.type ≠ messageIntegrity) (hat : At data p bytes) : Walk data p
    (p + total attrs) := by
  induction attrs generalizing bytes p with
  | nil => exact .here p
  | cons attr attrs ih =>
    have hlen := value_length (List.mem_cons_self (a := attr) (l := attrs)) htotal
    have hsize := Nat.lt_of_le_of_lt (value_size_le (List.mem_cons_self (a := attr) (l := attrs))) htotal
    obtain ⟨value, rest, hvalue, hrest, rfl⟩ := writeAttrs_cons hw
    obtain ⟨hfront, hat⟩ := at_append.1 hat
    obtain ⟨hfront, -⟩ := at_append.1 hfront
    obtain ⟨htype, hlength⟩ := at_append.1 hfront
    have htype := htype.read16
    have hlength : read16At data (p + 2) = attr.value.length := hlength.read16
    have hvlen := write_length hvalue hsize
    rw [total_cons] at htotal ⊢
    have hnext : p + (be16 attr.type ++ be16 attr.value.length ++ value).length = p + attr.size := by
      simp only [List.length_append, be16_length, hvlen, StunAttribute.size, kStunAttributeHeaderSize]
      omega
    rw [hnext] at hat
    have hrest := ih hrest (by omega) (fun a ha => hother a (List.mem_cons_of_mem _ ha)) hat
    refine .skip (by rw [htype]; exact hother attr List.mem_cons_self) ?_
    rw [hlength, hlen]
    have hstep : p + kStunAttributeHeaderSize + padded attr.value.size = p + attr.size := by
      unfold StunAttribute.size
      omega
    rw [hstep, Nat.add_assoc] at *
    exact hrest

theorem total_mod (attrs : List StunAttribute) : total attrs % 4 = 0 := by
  induction attrs with
  | nil => rfl
  | cons attr attrs ih =>
    have hpad := padded_mod attr.value.size
    rw [total_cons, StunAttribute.size, kStunAttributeHeaderSize]
    omega

theorem put_header (type length length' : UInt16) (id : TransactionId) (rest : List UInt8) :
    put (StunMessage.writeHeader type length id ++ rest) 2 (be16 length') =
        StunMessage.writeHeader type length' id ++ rest := by
  simp only [StunMessage.writeHeader, List.append_assoc]
  rw [← List.append_assoc, ← List.append_assoc (be16 type) (be16 length')]
  exact put_append (be16 type) _ rfl

end Sent

namespace StunMessage

/-- A message with `attrs`, a MESSAGE-INTEGRITY under `key`, `more` attributes and a FINGERPRINT. -/
def signed (cls : MessageClass) (type : UInt16) (id : TransactionId) (key : List UInt8)
    (attrs more : List StunAttribute) :
    Option StunMessage := do
  let m ← (new type id).addAttributes cls attrs
  let m ← m.addMessageIntegrity hmac cls key
  let m ← m.addAttributes cls more
  m.addFingerprint crc32 cls

end StunMessage

section Signed

variable {cls : MessageClass} {type : UInt16} {id : TransactionId} {key bytes : List UInt8}
    {attrs more : List StunAttribute}
  {m : StunMessage}

/-- The bytes of the two attributes for a text. -/
def integrityBytes (key text : List UInt8) : List UInt8 := be16 messageIntegrity ++ be16 20 ++ (hmac key text).toList

def fingerprintBytes (text : List UInt8) : List UInt8 :=
  be16 fingerprint ++ be16 4 ++ be32 (crc32 text ^^^ stunFingerprintXorValue)

theorem total_integrity (bytes : Vector UInt8 20) : total [⟨messageIntegrity, .byteString bytes.toList⟩] = 24 := by
  have hlen : bytes.toList.length = 20 := Vector.length_toList
  simp [total, StunAttribute.size, Value.size, hlen, padded, kStunAttributeHeaderSize]

theorem integrity_length (mac : Vector UInt8 20) : (Value.byteString mac.toList).length = 20 := by
  have hlen : mac.toList.length = 20 := Vector.length_toList
  rw [Value.length, Value.size, hlen]
  rfl

theorem take_mac (mac : Vector UInt8 20) : mac.toList.take (UInt16.toNat 20) = mac.toList :=
  List.take_of_length_le (Nat.le_of_eq Vector.length_toList)

theorem writePadding_mac : writePadding 20 = [] := rfl

theorem fingerprint_length (bits : UInt32) : (Value.uint32 bits).length = 4 := rfl

theorem total_fingerprint (bits : UInt32) : total [⟨fingerprint, .uint32 bits⟩] = 8 := by
  simp [total, StunAttribute.size, Value.size, padded, kStunAttributeHeaderSize]

theorem signed_bytes (h : StunMessage.signed hmac crc32 cls type id key attrs more = some m)
    (htotal : total m.attrs < 65536)
    (hw : m.write = some bytes) :
    ∃ (length : UInt16) (front back text : List UInt8),
      writeAttrs id attrs = some front ∧ back.length = total more ∧ length.toNat = total attrs + 24 + total more + 8 ∧
      text = StunMessage.writeHeader type length id ++ (front ++
        integrityBytes hmac key (StunMessage.writeHeader type (UInt16.ofNat (total attrs + 24)) id ++ front) ++ back) ∧
      bytes = text ++ fingerprintBytes crc32 text := by
  simp only [StunMessage.signed, Option.bind_eq_bind, Option.bind_eq_some_iff] at h
  obtain ⟨m₁, hm₁, m₂, hm₂, m₃, hm₃, h⟩ := h
  obtain ⟨front, hfront, rfl⟩ := addMessageIntegrity_some hmac hm₂
  obtain ⟨body, hbody, rfl⟩ := addFingerprint_some crc32 h
  have hattrs := (addAttributes_attrs hm₁).1
  have hmore := (addAttributes_attrs hm₃).1
  rw [StunMessage.new, List.nil_append] at hattrs
  rw [hattrs] at hmore
  have hsum : total m₃.attrs = total attrs + 24 + total more := by
    rw [hmore, total_append, total_append, total_integrity]
  rw [total_append, total_fingerprint, hsum] at htotal
  obtain rfl := addAttributes_some hm₁ (by omega)
  obtain rfl := addAttributes_some hm₃ (by omega)
  obtain ⟨written, hwritten, rfl⟩ := write_some hw
  obtain ⟨body', value, hbody', hvalue, rfl⟩ := writeAttrs_last hwritten
  obtain rfl := Option.some.inj (hbody.symm.trans hbody')
  obtain rfl := Option.some.inj hvalue
  obtain ⟨start, back, hstart, hback, rfl⟩ := writeAttrs_append hbody
  obtain ⟨front', mac, hfront', hmac, rfl⟩ := writeAttrs_last hstart
  obtain rfl := Option.some.inj (hfront.symm.trans hfront')
  obtain rfl := Option.some.inj hmac
  have hstart : (0 : UInt16) + UInt16.ofNat (total attrs) + 24 = UInt16.ofNat (total attrs + 24) := by
    rw [UInt16.zero_add, UInt16.ofNat_add]
    rfl
  have hlength : ((0 : UInt16) + UInt16.ofNat (total attrs) + 24 + UInt16.ofNat (total more) + 8).toNat =
      total attrs + 24 + total more + 8 := by
    have heq : UInt16.ofNat (total attrs + 24) + UInt16.ofNat (total more) + 8 = UInt16.ofNat
        (total attrs + 24 + total more + 8) := by
      rw [UInt16.ofNat_add (total attrs + 24 + total more), UInt16.ofNat_add (total attrs + 24)]
      rfl
    rw [hstart, heq, UInt16.toNat_ofNat']
    exact Nat.mod_eq_of_lt htotal
  refine ⟨_, front, back, _, hfront, writeAttrs_length hback (by omega), hlength, rfl, ?_⟩
  simp only [StunMessage.new, integrity_length, take_mac, writePadding_mac, fingerprint_length, hstart, integrityBytes,
    fingerprintBytes, List.append_assoc, List.nil_append]

theorem integrityBytes_length (key text : List UInt8) : (integrityBytes hmac key text).length = 24 := by
  have hlen : (hmac key text).toList.length = 20 := Vector.length_toList
  simp only [integrityBytes, List.length_append, be16_length, hlen]

theorem fingerprintBytes_length (text : List UInt8) : (fingerprintBytes crc32 text).length = 8 := rfl

/-- The attribute is found where it was written, and the text it was made from is put together again. -/
theorem integrity_accepted {length : UInt16} {front rest : List UInt8} (hfront : writeAttrs id attrs = some front)
    (htotal : total attrs + 24 ≤ length.toNat) (hother : ∀ attr ∈ attrs, attr.type ≠ messageIntegrity)
    (hdata : bytes = StunMessage.writeHeader type length id ++ front ++
      integrityBytes hmac key (StunMessage.writeHeader type (UInt16.ofNat (total attrs + 24)) id ++ front) ++ rest)
    (hsize : bytes.length = length.toNat + kStunHeaderSize) (hmod : length.toNat % 4 = 0) :
    validateMessageIntegrity hmac bytes bytes.length key = true := by
  have hlt := length.toNat_lt
  have hheader := header_length type length id
  have hfrontlen := writeAttrs_length hfront (by omega)
  have hat : At bytes 0 (StunMessage.writeHeader type length id ++ front ++
      integrityBytes hmac key (StunMessage.writeHeader type (UInt16.ofNat (total attrs + 24)) id ++ front)) := by
    rw [hdata]
    exact at_zero _ _
  obtain ⟨htext, hmi⟩ := at_append.1 hat
  have hwalk := walk_attrs hfront (by omega) hother (at_append.1 htext).2
  rw [List.length_append, hheader, hfrontlen, Nat.zero_add] at hmi
  rw [hheader, Nat.zero_add] at hwalk
  obtain ⟨hmi, hdigest⟩ := at_append.1 hmi
  obtain ⟨htype, hvalue⟩ := at_append.1 hmi
  have hvalue : (read16At bytes (kStunHeaderSize + total attrs + 2)).toNat = kStunMessageIntegritySize :=
    congrArg UInt16.toNat hvalue.read16
  have hfirst : FirstIntegrity bytes (kStunHeaderSize + total attrs) := ⟨hwalk, htype.read16, hvalue⟩
  have hend : miEnd (kStunHeaderSize + total attrs) ≤ bytes.length := by
    rw [hsize, miEnd, kStunAttributeHeaderSize, kStunMessageIntegritySize]
    omega
  have hfield : bytes.length = (read16At bytes 2).toNat + kStunHeaderSize := by
    rw [hsize, hdata, List.append_assoc, List.append_assoc, header_field]
  have hsize4 : bytes.length % 4 = 0 := by
    rw [hsize, kStunHeaderSize]
    omega
  have hbefore : bytesAt bytes 0 (kStunHeaderSize + total attrs) = StunMessage.writeHeader type length id ++ front := by
    have h := bytesAt_eq htext
    rwa [List.length_append, hheader, hfrontlen] at h
  have hfind := hfirst.find (Nat.le_trans (Nat.add_le_add_right (Nat.le_add_right _ _) _) hend)
  refine (validate_iff hmac hfind hsize4 hfield (Nat.le_add_right _ _) hend).2 ?_
  have hlen2 : miEnd (kStunHeaderSize + total attrs) - kStunHeaderSize = total attrs + 24 := by
    unfold miEnd kStunHeaderSize kStunAttributeHeaderSize kStunMessageIntegritySize
    omega
  rw [hbefore, put_header, hlen2]
  have hbytes := bytesAt_eq hdigest
  rwa [Vector.length_toList] at hbytes

theorem fingerprint_accepted {length : UInt16} {rest : List UInt8} (hlegacy : id.isLegacy = false)
    (hsize : (StunMessage.writeHeader type length id ++ rest).length % 4 = 0) :
    validateFingerprint crc32 (StunMessage.writeHeader type length id ++ rest ++
      fingerprintBytes crc32 (StunMessage.writeHeader type length id ++ rest))
      (StunMessage.writeHeader type length id ++ rest ++
        fingerprintBytes crc32 (StunMessage.writeHeader type length id ++ rest)).length = true := by
  have hheader := header_length type length id
  generalize htext : StunMessage.writeHeader type length id ++ rest = text at *
  have hlen : (text ++ fingerprintBytes crc32 text).length = text.length + 8 := List.length_append
  have hlong : kStunHeaderSize ≤ text.length := by
    rw [← htext, List.length_append, hheader]
    exact Nat.le_add_right _ _
  have hcookie : read32At (text ++ fingerprintBytes crc32 text) 4 = kStunMagicCookie := by
    apply At.read32
    rw [← htext, StunMessage.writeHeader, hlegacy, List.append_assoc _ rest, List.append_assoc _ id.bytes]
    exact at_suffix (be16 type ++ be16 length) (be32 kStunMagicCookie) _
  have hat : At (text ++ fingerprintBytes crc32 text) text.length (fingerprintBytes crc32 text) := by
    have h := at_suffix text (fingerprintBytes crc32 text) []
    rwa [List.append_nil] at h
  obtain ⟨hat, hvalue⟩ := at_append.1 hat
  obtain ⟨htype, hlength⟩ := at_append.1 hat
  have htype : read16At (text ++ fingerprintBytes crc32 text) text.length = fingerprint := htype.read16
  have hlength : read16At (text ++ fingerprintBytes crc32 text) (text.length + 2) = 4 := hlength.read16
  have hvalue : read32At (text ++ fingerprintBytes crc32 text) (text.length + kStunAttributeHeaderSize) =
      crc32 text ^^^ stunFingerprintXorValue := hvalue.read32
  have hbefore : bytesAt (text ++ fingerprintBytes crc32 text) 0 text.length = text := bytesAt_eq (at_zero _ _)
  have hback : text.length + 8 - (kStunAttributeHeaderSize + 4) = text.length := Nat.add_sub_cancel _ _
  have hgood : ¬ ((text.length + 8) % 4 ≠ 0 ∨ text.length + 8 < kStunHeaderSize + (kStunAttributeHeaderSize + 4)) := by
    unfold kStunAttributeHeaderSize
    omega
  unfold validateFingerprint
  dsimp only
  rw [hlen, if_neg hgood, if_neg (not_not.2 hcookie), hback, htype, hlength, hvalue, hbefore,
    UInt32.xor_assoc, UInt32.xor_self,
    UInt32.xor_zero]
  simp

theorem signed_accepted (h : StunMessage.signed hmac crc32 cls type id key attrs more = some m)
    (htotal : total m.attrs < 65536)
    (hother : ∀ attr ∈ attrs, attr.type ≠ messageIntegrity) (hw : m.write = some bytes) :
    validateMessageIntegrity hmac bytes bytes.length key = true ∧
      (id.isLegacy = false → validateFingerprint crc32 bytes bytes.length = true) := by
  obtain ⟨length, front, back, text, hfront, hback, hlength, rfl, rfl⟩ := signed_bytes hmac crc32 h htotal hw
  have hattrs := total_mod attrs
  have hmore := total_mod more
  have hlt := length.toNat_lt
  have hheader := header_length type length id
  have hfrontlen := writeAttrs_length hfront (by omega)
  have hmod : length.toNat % 4 = 0 := by omega
  constructor
  · have hdata (mac fp : List UInt8) : StunMessage.writeHeader type length id ++ (front ++ mac ++ back) ++ fp =
        StunMessage.writeHeader type length id ++ front ++ mac ++ (back ++ fp) := by simp only [List.append_assoc]
    refine integrity_accepted hmac hfront (by omega) hother (hdata _ _) ?_ hmod
    simp only [List.length_append, hheader, hfrontlen, hback, integrityBytes_length, fingerprintBytes_length]
    omega
  · intro hlegacy
    refine fingerprint_accepted crc32 hlegacy ?_
    simp only [List.length_append, hheader, hfrontlen, hback, integrityBytes_length, kStunHeaderSize]
    omega

end Signed

/-- A signed message is accepted, and what is accepted is authentic but for a truncated attribute. -/
theorem integrity_exact :
    (∀ (cls : MessageClass) (type : UInt16) (id : TransactionId) (key : List UInt8) (attrs more : List StunAttribute)
        (m : StunMessage) (bytes : List UInt8),
      StunMessage.signed hmac crc32 cls type id key attrs more = some m → total m.attrs < 65536 →
        (∀ attr ∈ attrs, attr.type ≠ messageIntegrity) → m.write = some bytes →
          validateMessageIntegrity hmac bytes bytes.length key = true ∧
            (id.isLegacy = false → validateFingerprint crc32 bytes bytes.length = true)) ∧
      ∀ (data : List UInt8) (size : Nat) (password : List UInt8),
        (validateMessageIntegrity hmac data size password = true → Authentic hmac data size password) ↔
          ¬ Truncated hmac data size password :=
  ⟨fun _ _ _ _ _ _ _ _ h htotal hother hw => signed_accepted hmac crc32 h htotal hother hw,
    fun _ _ _ => accepted_iff hmac⟩

/-- A request with a user name, signed with the key `pw`, and a priority behind the MESSAGE-INTEGRITY.
The two functions have the values of HMAC-SHA1 and CRC-32 for it. -/
theorem integrity_request :
    let mac : Vector UInt8 20 := #v[37, 165, 252, 126, 187, 73, 205, 137, 9, 212, 86, 148, 59, 155,
      213, 57, 236, 7, 194, 111]
    ∃ m bytes, StunMessage.signed (fun _ _ => mac) (fun _ => 0x9f8250d9) .ice 1 ⟨List.replicate 12 7,
      .inl rfl⟩ [0x70, 0x77]
        [⟨username, .byteString [0x61, 0x3A, 0x62]⟩] [⟨priority, .uint32 5⟩] = some m ∧ m.write = some bytes ∧
      validateMessageIntegrity (fun _ _ => mac) bytes bytes.length [0x70, 0x77] = true := by
  intro mac
  let attrs : List StunAttribute :=
    [⟨username, .byteString [0x61, 0x3A, 0x62]⟩, ⟨messageIntegrity, .byteString mac.toList⟩,
    ⟨priority, .uint32 5⟩, ⟨fingerprint, .uint32 (0x9f8250d9 ^^^ stunFingerprintXorValue)⟩]
  have hsigned : StunMessage.signed (fun _ _ => mac) (fun _ => 0x9f8250d9) .ice 1
    ⟨List.replicate 12 7, .inl rfl⟩ [0x70, 0x77]
      [⟨username, .byteString [0x61, 0x3A, 0x62]⟩] [⟨priority, .uint32 5⟩] =
      some ⟨1, 48, ⟨List.replicate 12 7, .inl rfl⟩, attrs⟩ := by decide
  have htotal : total attrs < 65536 := by decide
  refine ⟨_, _, hsigned, rfl, ?_⟩
  exact ((integrity_exact (fun _ _ => mac) (fun _ => 0x9f8250d9)).1 _ _ _ _ _ _ _ _ hsigned htotal (by decide) rfl).1

/-- The attribute of this string ends four bytes behind its end. Its value is the HMAC-SHA1 under `pw`
of the header with the length of the string, not of the header with the length of the attribute. -/
theorem truncated_accepted :
    let short : List UInt8 := [0, 1, 0, 20, 0x21, 0x12, 0xA4, 0x42, 7, 7, 7, 7, 7, 7, 7, 7, 7, 7, 7, 7]
    let macShort : Vector UInt8 20 := #v[137, 49, 63, 100, 78, 65, 111, 37, 246, 14, 241, 16, 143,
      133, 5, 20, 146, 137, 245, 34]
    let macLong : Vector UInt8 20 := #v[248, 17, 96, 169, 127, 21, 200, 13, 117, 50, 8, 91, 89, 127,
      50, 114, 62, 234, 87, 253]
    let hmac : List UInt8 → List UInt8 → Vector UInt8 20 := fun _ text => if text = short then macShort else macLong
    let data := short ++ [0, 8, 0, 20] ++ macShort.toList
    validateMessageIntegrity hmac data 40 [0x70, 0x77] = true ∧ ¬ Authentic hmac data 40 [0x70, 0x77] := by
  intro short macShort macLong hmac data
  refine ⟨by decide, ?_⟩
  rintro ⟨pos, hfirst, hend, -⟩
  have hfind := hfirst.find (Nat.le_trans (Nat.add_le_add_right (Nat.le_add_right _ _) _) hend)
  have h20 : findIntegrity data 40 40 kStunHeaderSize = some 20 := by decide
  rw [h20] at hfind
  obtain rfl := Option.some.inj hfind
  exact absurd hend (by decide)

end WebRtc.Stun
