import WebRtc.Stun.Message
import Mathlib.Data.Nat.Bitwise

/-!
# What is written can be read

The padding of a value is consumed as it was written, so an attribute takes the same bytes in `Write`
and in `Read`. The length of a message is the sum over its attributes of what each of them takes, as
long as this sum is below 65536.
-/

namespace WebRtc.Stun

open Bytes Reader

/-- `xor` with the same key again. -/
theorem xored_xored {n : Nat} (addr key : Vector UInt8 n) : xored (xored addr key) key = addr := by
  apply Vector.ext
  intro i hi
  simp only [xored, Vector.getElem_zipWith]
  rw [UInt8.xor_assoc, UInt8.xor_self, UInt8.xor_zero]

theorem xoredPort_xoredPort (port : UInt16) : xoredPort (xoredPort port) = port := by
  unfold xoredPort
  rw [UInt16.xor_assoc, UInt16.xor_self, UInt16.xor_zero]

/-- The attribute can be written in a message with this transaction id. -/
def Value.Complete (owner : TransactionId) : Value → Prop
  | address ip _ => ip ≠ .unspec
  | xorAddress (.v6 _) _ => owner.isLegacy = false
  | xorAddress ip _ => ip ≠ .unspec
  | errorCode eclass number _ => code eclass number < 800
  | _ => True

theorem TransactionId.length_of_not_legacy {id : TransactionId} (h : id.isLegacy = false) :
    id.bytes.length = kStunTransactionIdLength := by
  have hne : id.bytes.length ≠ kStunLegacyTransactionIdLength := by simpa [TransactionId.isLegacy] using h
  exact id.valid.resolve_right hne

section Xor

variable {owner : TransactionId} {ip : IPAddress} {port : UInt16}

theorem complete_xor (h : (Value.xorAddress ip port).Complete owner) :
    (ip.xoredIP owner).xoredIP owner = ip ∧ ip.xoredIP owner ≠ .unspec ∧ (ip.xoredIP owner).size = ip.size := by
  cases ip with
  | unspec => exact absurd rfl h
  | v4 addr => simp [IPAddress.xoredIP, xored_xored, IPAddress.size]
  | v6 addr =>
    have hlen := TransactionId.length_of_not_legacy h
    simp [IPAddress.xoredIP, hlen, xored_xored, IPAddress.size]

end Xor

/-! ## Padding -/

theorem writePadding_length (n : Nat) (h : n < 65536) : n + (writePadding (UInt16.ofNat n)).length = padded n := by
  have hn : (UInt16.ofNat n).toNat = n := by
    rw [UInt16.toNat_ofNat']
    exact Nat.mod_eq_of_lt h
  unfold writePadding padded
  rw [hn]
  by_cases hr : n % 4 = 0
  · simp [hr]
  · have hpos : 0 < n % 4 := Nat.pos_of_ne_zero hr
    simp [hr, hpos]

theorem reads_padding (length : UInt16) : Reads (consumePadding length) (writePadding length) () := by
  unfold consumePadding writePadding
  by_cases hr : 0 < length.toNat % 4
  · simp only [if_pos hr]
    intro rest
    have hc := Reads.consume (List.replicate (4 - length.toNat % 4) 0) rest
    rw [List.length_replicate] at hc
    change ((consume _).run _ <|> _) = _
    rw [hc]
    rfl
  · simp only [if_neg hr]
    exact Reads.pure ()

/-! ## Values -/

section Values

variable {owner : TransactionId} {v : Value} {bytes : List UInt8}

theorem reads_address {ip : IPAddress} {port : UInt16} (hw : writeAddress ip port = some bytes) :
    Reads (readAddress (UInt16.ofNat ip.size)) bytes (ip, port) ∧ bytes.length = ip.size := by
  cases ip with
  | unspec => simp [writeAddress] at hw
  | v4 addr =>
    obtain rfl := Option.some.inj hw
    refine ⟨?_, by simp [IPAddress.size]⟩
    rw [List.append_assoc]
    refine (Reads.readUInt8 0).bind ((Reads.readUInt8 1).bind ((Reads.readUInt16 port).bind ?_))
    exact (Reads.readVector addr).returns (Reads.pure _)
  | v6 addr =>
    obtain rfl := Option.some.inj hw
    refine ⟨?_, by simp [IPAddress.size]⟩
    rw [List.append_assoc]
    refine (Reads.readUInt8 0).bind ((Reads.readUInt8 2).bind ((Reads.readUInt16 port).bind ?_))
    exact (Reads.readVector addr).returns (Reads.pure _)

theorem reads_errorCode {eclass number : UInt8} {reason : List UInt8} (hcode : code eclass number < 800)
    (hsize : 4 + reason.length < 65536) :
    Reads (readErrorCode (UInt16.ofNat (4 + reason.length)))
      (be32 (UInt32.ofNat (eclass.toNat * 256 ||| number.toNat)) ++ reason ++ writePadding
        (UInt16.ofNat (4 + reason.length)))
      (.errorCode eclass number reason) := by
  have hlen : (UInt16.ofNat (4 + reason.length)).toNat = 4 + reason.length := by
    rw [UInt16.toNat_ofNat']
    exact Nat.mod_eq_of_lt hsize
  have hclass : eclass.toNat < 8 := by
    unfold code at hcode
    omega
  have hnumber := number.toNat_lt
  have hval : (eclass.toNat * 256 ||| number.toNat) = eclass.toNat * 256 + number.toNat := by
    rw [Nat.mul_comm]
    exact (Nat.two_pow_add_eq_or_of_lt (i := 8) hnumber eclass.toNat).symm
  have hbits : (UInt32.ofNat (eclass.toNat * 256 + number.toNat)).toNat = eclass.toNat * 256 + number.toNat := by
    rw [UInt32.toNat_ofNat']
    exact Nat.mod_eq_of_lt (by omega)
  have heclass : UInt8.ofNat ((eclass.toNat * 256 + number.toNat) / 256 % 8) = eclass := by
    apply UInt8.toNat_inj.1
    rw [UInt8.toNat_ofNat']
    omega
  have hnum : UInt8.ofNat (eclass.toNat * 256 + number.toNat) = number := by
    apply UInt8.toNat_inj.1
    rw [UInt8.toNat_ofNat']
    omega
  have hlong : ¬ UInt16.ofNat (4 + reason.length) < 4 := by
    rw [UInt16.lt_iff_toNat_lt, hlen]
    exact Nat.not_lt.2 (Nat.le_add_right _ _)
  have hreason : Reads (readBytes ((UInt16.ofNat (4 + reason.length)).toNat - 4)) reason reason := by
    rw [hlen, Nat.add_sub_cancel_left]
    exact Reads.readBytes reason
  unfold readErrorCode
  rw [if_neg hlong, hval, List.append_assoc]
  refine (Reads.readUInt32 _).bind (hreason.bind ((reads_padding _).returns ?_))
  rw [hbits, heclass, hnum]
  exact Reads.pure _

theorem reads_uint16List {attrTypes : List UInt16} (hsize : attrTypes.length * 2 < 65536) :
    Reads (readUInt16List (UInt16.ofNat (attrTypes.length * 2)))
      (attrTypes.flatMap be16 ++ writePadding (UInt16.ofNat (attrTypes.length * 2))) (.uint16List attrTypes) := by
  have hlen : (UInt16.ofNat (attrTypes.length * 2)).toNat = attrTypes.length * 2 := by
    rw [UInt16.toNat_ofNat']
    exact Nat.mod_eq_of_lt hsize
  have heven : ¬ (UInt16.ofNat (attrTypes.length * 2)).toNat % 2 ≠ 0 := by
    rw [hlen]
    omega
  have hlist : Reads (times readUInt16 ((UInt16.ofNat (attrTypes.length * 2)).toNat / 2))
      (attrTypes.flatMap be16) attrTypes := by
    rw [hlen, Nat.mul_div_cancel _ (by decide)]
    exact Reads.times Reads.readUInt16 attrTypes
  unfold readUInt16List
  rw [if_neg heven]
  exact hlist.bind ((reads_padding _).returns (Reads.pure _))

/-- A value that can be written is read from the bytes that are written, and they are as many as its
size and the padding. -/
theorem reads_value (hw : v.write owner = some bytes) (hc : v.Complete owner) (hsize : v.size < 65536) :
    (∃ r, readValue owner v.length v.valueType = some r ∧ Reads r bytes v) := by
  cases v with
  | address ip port => exact ⟨_, rfl, (reads_address hw).1.returns (Reads.pure _)⟩
  | xorAddress ip port =>
    obtain ⟨hback, hne, hlen⟩ := complete_xor hc
    have hr := (reads_address hw).1
    rw [hlen] at hr
    refine ⟨_, rfl, hr.returns ?_⟩
    simp only [hback, xoredPort_xoredPort]
    exact Reads.pure _
  | uint32 bits =>
    obtain rfl := Option.some.inj hw
    exact ⟨_, rfl, (Reads.readUInt32 bits).returns (Reads.pure _)⟩
  | uint64 bits =>
    obtain rfl := Option.some.inj hw
    exact ⟨_, rfl, (Reads.readUInt64 bits).returns (Reads.pure _)⟩
  | byteString str =>
    obtain rfl := Option.some.inj hw
    have hlen : (Value.byteString str).length.toNat = str.length := by
      rw [Value.length, UInt16.toNat_ofNat']
      exact Nat.mod_eq_of_lt hsize
    have hstr : Reads (readBytes (Value.byteString str).length.toNat)
        (str.take (Value.byteString str).length.toNat) str := by
      rw [hlen, List.take_length]
      exact Reads.readBytes str
    exact ⟨_, rfl, hstr.bind ((reads_padding _).returns (Reads.pure _))⟩
  | errorCode eclass number reason =>
    obtain rfl := Option.some.inj hw
    exact ⟨_, rfl, reads_errorCode hc hsize⟩
  | uint16List attrTypes =>
    obtain rfl := Option.some.inj hw
    exact ⟨_, rfl, reads_uint16List hsize⟩

theorem writeAddress_length {ip : IPAddress} {port : UInt16} (hw : writeAddress ip port = some bytes) :
    bytes.length = ip.size := (reads_address hw).2

theorem padded_size {ip : IPAddress} : padded ip.size = ip.size := by
  cases ip <;> simp [padded, IPAddress.size]

theorem xoredIP_size {ip : IPAddress} (h : ip.xoredIP owner ≠ .unspec) : (ip.xoredIP owner).size = ip.size := by
  cases ip with
  | unspec => rfl
  | v4 addr => rfl
  | v6 addr =>
    by_cases hlen : owner.bytes.length = kStunTransactionIdLength
    · simp [IPAddress.xoredIP, hlen, IPAddress.size]
    · exact absurd (dif_neg hlen) h

/-- Whatever is written takes the size of the value and its padding. -/
theorem write_length (hw : v.write owner = some bytes) (hsize : v.size < 65536) : bytes.length = padded v.size := by
  have hpad := writePadding_length v.size hsize
  cases v with
  | address ip port =>
    rw [Value.size, padded_size]
    exact writeAddress_length hw
  | xorAddress ip port =>
    have hne : ip.xoredIP owner ≠ .unspec := by
      rintro h
      rw [Value.write, h] at hw
      cases hw
    rw [Value.size, padded_size, ← xoredIP_size hne]
    exact writeAddress_length hw
  | uint32 bits =>
    obtain rfl := Option.some.inj hw
    simp [padded, Value.size]
  | uint64 bits =>
    obtain rfl := Option.some.inj hw
    simp [padded, Value.size]
  | byteString str =>
    obtain rfl := Option.some.inj hw
    have hlen : (Value.byteString str).length.toNat = str.length := by
      rw [Value.length, UInt16.toNat_ofNat']
      exact Nat.mod_eq_of_lt hsize
    rw [hlen, List.take_length, List.length_append]
    exact hpad
  | errorCode eclass number reason =>
    obtain rfl := Option.some.inj hw
    rw [List.length_append, List.length_append, be32_length]
    exact hpad
  | uint16List attrTypes =>
    obtain rfl := Option.some.inj hw
    rw [List.length_append, flatMap_length be16_length]
    exact hpad

end Values

/-! ## Attributes -/

/-- What an attribute takes in a message. -/
def StunAttribute.size (attr : StunAttribute) : Nat := padded attr.value.size + kStunAttributeHeaderSize

def total (attrs : List StunAttribute) : Nat := (attrs.map StunAttribute.size).sum

theorem total_cons (attr : StunAttribute) (attrs : List StunAttribute) :
    total (attr :: attrs) = attr.size + total attrs := by
  simp [total]

theorem total_append (attrs more : List StunAttribute) : total (attrs ++ more) = total attrs + total more := by
  simp [total]

theorem size_le_padded (n : Nat) : n ≤ padded n := by
  unfold padded
  split <;> omega

theorem value_size_le {attrs : List StunAttribute} {attr : StunAttribute} (h : attr ∈ attrs) :
    attr.value.size ≤ total attrs := by
  induction attrs with
  | nil => cases h
  | cons first rest ih =>
    rw [total_cons]
    rcases List.mem_cons.1 h with rfl | h
    · have hpad := size_le_padded attr.value.size
      unfold StunAttribute.size
      omega
    · have hrest := ih h
      omega

theorem value_length {attrs : List StunAttribute} {attr : StunAttribute} (h : attr ∈ attrs)
    (htotal : total attrs < 65536) :
    attr.value.length.toNat = attr.value.size := by
  rw [Value.length, UInt16.toNat_ofNat']
  exact Nat.mod_eq_of_lt (Nat.lt_of_le_of_lt (value_size_le h) htotal)

section Attributes

variable {cls : MessageClass} {owner : TransactionId} {attr : StunAttribute}
    {attrs : List StunAttribute} {bytes : List UInt8}

theorem writeAttrs_cons (hw : writeAttrs owner (attr :: attrs) = some bytes) :
    ∃ value more, attr.value.write owner = some value ∧ writeAttrs owner attrs = some more ∧
      bytes = be16 attr.type ++ be16 attr.value.length ++ value ++ more := by
  simp only [writeAttrs, Option.bind_eq_bind, Option.bind_eq_some_iff, Option.pure_def, Option.some.injEq] at hw
  obtain ⟨value, hvalue, more, hmore, rfl⟩ := hw
  exact ⟨value, more, hvalue, hmore, rfl⟩

theorem writeAttrs_length (hw : writeAttrs owner attrs = some bytes) (htotal : total attrs < 65536) :
    bytes.length = total attrs := by
  induction attrs generalizing bytes with
  | nil =>
    obtain rfl := Option.some.inj hw
    rfl
  | cons attr attrs ih =>
    obtain ⟨value, more, hvalue, hmore, rfl⟩ := writeAttrs_cons hw
    have hsize := Nat.lt_of_le_of_lt (value_size_le List.mem_cons_self) htotal
    rw [total_cons] at htotal ⊢
    have hlen := write_length hvalue hsize
    have hrest := ih hmore (by omega)
    simp only [List.length_append, be16_length, hlen, hrest, StunAttribute.size, kStunAttributeHeaderSize]
    omega

theorem writeAddress_some {ip : IPAddress} (port : UInt16) (h : ip ≠ .unspec) :
    ∃ bytes, writeAddress ip port = some bytes := by
  cases ip with
  | unspec => exact absurd rfl h
  | v4 addr => exact ⟨_, rfl⟩
  | v6 addr => exact ⟨_, rfl⟩

theorem write_complete {v : Value} (hc : v.Complete owner) : ∃ bytes, v.write owner = some bytes := by
  cases v with
  | address ip port => exact writeAddress_some port hc
  | xorAddress ip port => exact writeAddress_some _ (complete_xor hc).2.1
  | uint32 bits => exact ⟨_, rfl⟩
  | uint64 bits => exact ⟨_, rfl⟩
  | byteString bytes => exact ⟨_, rfl⟩
  | errorCode eclass number reason => exact ⟨_, rfl⟩
  | uint16List attrTypes => exact ⟨_, rfl⟩

theorem writeAttrs_complete (hc : ∀ attr ∈ attrs, attr.value.Complete owner) :
    ∃ bytes, writeAttrs owner attrs = some bytes := by
  induction attrs with
  | nil => exact ⟨_, rfl⟩
  | cons attr attrs ih =>
    obtain ⟨value, hvalue⟩ := write_complete (hc attr List.mem_cons_self)
    obtain ⟨more, hmore⟩ := ih fun a ha => hc a (List.mem_cons_of_mem _ ha)
    refine ⟨be16 attr.type ++ be16 attr.value.length ++ value ++ more, ?_⟩
    rw [writeAttrs, hvalue, hmore]
    rfl

theorem reads_attribute {value : List UInt8} (hw : attr.value.write owner = some value) (hc : attr.value.Complete owner)
    (hsize : attr.value.size < 65536) (htype : attr.value.valueType = cls.getAttributeValueType attr.type) :
    Reads (readAttribute cls owner) (be16 attr.type ++ be16 attr.value.length ++ value) (some attr) := by
  obtain ⟨r, hr, hreads⟩ := reads_value hw hc hsize
  unfold readAttribute
  rw [List.append_assoc]
  refine (Reads.readUInt16 _).bind ((Reads.readUInt16 _).bind ?_)
  rw [← htype, hr]
  exact hreads.returns (Reads.pure _)

/-- Attributes that are valid for the class and can be written in the message. -/
def Valid (cls : MessageClass) (owner : TransactionId) (attrs : List StunAttribute) : Prop :=
  ∀ attr ∈ attrs, attr.value.Complete owner ∧ attr.value.valueType = cls.getAttributeValueType attr.type

theorem reads_attrs (hw : writeAttrs owner attrs = some bytes) (hvalid : Valid cls owner attrs)
    (htotal : total attrs < 65536)
    (rest : List UInt8) {fuel : Nat} (hfuel : bytes.length ≤ fuel) :
    (readAttrs cls owner rest.length fuel).run (bytes ++ rest) = some (attrs, rest) := by
  induction attrs generalizing bytes fuel with
  | nil =>
    obtain rfl := Option.some.inj hw
    cases fuel <;> simp [readAttrs]
  | cons attr attrs ih =>
    obtain ⟨value, more, hvalue, hmore, rfl⟩ := writeAttrs_cons hw
    have hsize := Nat.lt_of_le_of_lt (value_size_le List.mem_cons_self) htotal
    obtain ⟨hc, htype⟩ := hvalid attr List.mem_cons_self
    have hattr := reads_attribute hvalue hc hsize htype
    rw [total_cons] at htotal
    simp only [List.length_append, be16_length] at hfuel
    cases fuel with
    | zero => omega
    | succ fuel =>
      have hleft : more.length ≤ fuel := by omega
      have hmore := ih hmore (fun a ha => hvalid a (List.mem_cons_of_mem _ ha)) (by omega) hleft
      have hlong : ¬ (be16 attr.type ++ be16 attr.value.length ++ value ++ more ++ rest).length ≤ rest.length := by
        simp only [List.length_append, be16_length]
        omega
      rw [readAttrs, StateT.run_bind, StateT.run_get]
      change (if _ then _ else _ : Reader _).run _ = _
      rw [if_neg hlong, List.append_assoc _ more rest, StateT.run_bind, hattr]
      simp only [Option.bind_eq_bind, Option.bind_some, StateT.run_bind, hmore]
      rfl

end Attributes

/-! ## Messages -/

section Messages

variable {cls : MessageClass} {m m' : StunMessage} {attrs : List StunAttribute}

theorem addAttribute_some {attr : StunAttribute} (h : m.addAttribute cls attr = some m') :
    attr.value.valueType = cls.getAttributeValueType attr.type ∧
      m' = { m with
        attrs := m.attrs ++ [attr]
        length := m.length + UInt16.ofNat (padded attr.value.length.toNat + 4) } := by
  unfold StunMessage.addAttribute at h
  split at h
  · cases h
  · rename_i htype
    exact ⟨not_not.1 htype, (Option.some.inj h).symm⟩

theorem addAttributes_attrs (h : m.addAttributes cls attrs = some m') :
    m'.attrs = m.attrs ++ attrs ∧ ∀ attr ∈ attrs, attr.value.valueType = cls.getAttributeValueType attr.type := by
  induction attrs generalizing m with
  | nil =>
    obtain rfl := Option.some.inj h
    simp
  | cons attr attrs ih =>
    simp only [StunMessage.addAttributes, List.foldlM_cons, Option.bind_eq_bind, Option.bind_eq_some_iff] at h
    obtain ⟨m₁, hm₁, h⟩ := h
    obtain ⟨htype, rfl⟩ := addAttribute_some hm₁
    obtain ⟨hattrs, htypes⟩ := ih h
    refine ⟨?_, List.forall_mem_cons.2 ⟨htype, htypes⟩⟩
    rw [hattrs, List.append_assoc, List.singleton_append]

theorem addAttributes_some (h : m.addAttributes cls attrs = some m') (htotal : total attrs < 65536) :
    m' = { m with attrs := m.attrs ++ attrs, length := m.length + UInt16.ofNat (total attrs) } := by
  induction attrs generalizing m with
  | nil =>
    obtain rfl := Option.some.inj h
    simp [total]
  | cons attr attrs ih =>
    have hlen := value_length (List.mem_cons_self (a := attr) (l := attrs)) htotal
    rw [total_cons] at htotal
    simp only [StunMessage.addAttributes, List.foldlM_cons, Option.bind_eq_bind, Option.bind_eq_some_iff] at h
    obtain ⟨m₁, hm₁, h⟩ := h
    obtain ⟨-, rfl⟩ := addAttribute_some hm₁
    obtain rfl := ih h (by omega)
    rw [hlen]
    simp only [total_cons, StunAttribute.size, kStunAttributeHeaderSize, List.append_assoc, List.singleton_append,
      UInt16.ofNat_add, UInt16.add_assoc]

/-- A transaction id of 16 bytes does not look like one of 12. -/
def TransactionId.NotCookie (id : TransactionId) : Prop := id.isLegacy = true → read32At id.bytes 0 ≠ kStunMagicCookie

theorem read32At_append {a : List UInt8} (b : List UInt8) (h : a.length = 4) : read32At (a ++ b) 0 = read32At a 0 := by
  have hbyte : ∀ i < 4, byteAt (a ++ b) i = byteAt a i := fun i hi => byteAt_append (by omega)
  simp only [read32At, hbyte 0 (by omega), hbyte (0 + 1) (by omega), hbyte (0 + 2) (by omega), hbyte (0 + 3) (by omega)]

/-- The 16 bytes behind the length are read as they were written. -/
theorem header_id {id : TransactionId} (h : id.NotCookie) :
    ∃ (cookie : Vector UInt8 4) (rest : Vector UInt8 12),
      (if id.isLegacy then [] else be32 kStunMagicCookie) ++ id.bytes = cookie.toList ++ rest.toList ∧
        transactionIdOf cookie rest = id := by
  obtain ⟨bytes, hvalid⟩ := id
  cases hlegacy : (TransactionId.mk bytes hvalid).isLegacy with
  | false =>
    have hlen : bytes.length = 12 := TransactionId.length_of_not_legacy hlegacy
    have hcookie : read32At cookieBytes.toList 0 = kStunMagicCookie := by decide
    refine ⟨cookieBytes, ⟨bytes.toArray, by simp [hlen]⟩, by simp only [Vector.toList]; rfl, ?_⟩
    rw [transactionIdOf, if_neg (not_not.2 hcookie)]
    rfl
  | true =>
    have hlen : bytes.length = 16 := by simpa [TransactionId.isLegacy, kStunLegacyTransactionIdLength] using hlegacy
    have htake : (bytes.take 4).length = 4 := by simp [hlen]
    have hcookie : read32At (bytes.take 4) 0 ≠ kStunMagicCookie := by
      rw [← read32At_append (bytes.drop 4) htake, List.take_append_drop]
      exact h hlegacy
    let cookie : Vector UInt8 4 := ⟨(bytes.take 4).toArray, by simp [hlen]⟩
    have hne : read32At cookie.toList 0 ≠ kStunMagicCookie := hcookie
    refine ⟨cookie, ⟨(bytes.drop 4).toArray, by simp [hlen]⟩, ?_, ?_⟩
    · simp [cookie, Vector.toList]
    · rw [transactionIdOf, if_pos hne]
      simp [cookie, Vector.toList]

theorem header_length (type length : UInt16) (id : TransactionId) :
    (StunMessage.writeHeader type length id).length = kStunHeaderSize := by
  unfold StunMessage.writeHeader
  cases hlegacy : id.isLegacy with
  | false =>
    have hlen : id.bytes.length = 12 := TransactionId.length_of_not_legacy hlegacy
    simp [hlen, kStunHeaderSize]
  | true =>
    have hlen : id.bytes.length = 16 := by simpa [TransactionId.isLegacy, kStunLegacyTransactionIdLength] using hlegacy
    simp [hlen, kStunHeaderSize]

theorem type_bit {type : UInt16} (h : type.toNat < 0x8000) : type &&& 0x8000 = 0 := by
  apply UInt16.toNat_inj.1
  rw [UInt16.toNat_and]
  change type.toNat &&& 2 ^ 15 = 0
  rw [Nat.and_two_pow, Nat.testBit_lt_two_pow h]
  rfl

theorem read_write {type length : UInt16} {id : TransactionId} {bytes : List UInt8}
    (htype : type.toNat < 0x8000) (hid : id.NotCookie)
    (hvalid : Valid cls id attrs) (htotal : total attrs < 65536) (hw : writeAttrs id attrs = some bytes)
    (hlength : length.toNat = total attrs) :
    StunMessage.read cls (StunMessage.writeHeader type length id ++ bytes) =
      some { type := type, length := length, transactionId := id, attrs := attrs } := by
  obtain ⟨cookie, rest, hheader, hback⟩ := header_id hid
  have hbytes := writeAttrs_length hw htotal
  have hattrs := reads_attrs hw hvalid htotal [] (Nat.le_refl bytes.length)
  have hshape : StunMessage.writeHeader type length id ++ bytes =
      be16 type ++ (be16 length ++ (cookie.toList ++ (rest.toList ++ bytes))) := by
    simp only [StunMessage.writeHeader, List.append_assoc]
    rw [← List.append_assoc _ id.bytes, hheader, List.append_assoc]
  have hleft : length.toNat = bytes.length := hlength.trans hbytes.symm
  rw [List.append_nil, List.length_nil] at hattrs
  change ((StunMessage.reader cls).run _).map Prod.fst = _
  rw [hshape, StunMessage.reader, (Reads.readUInt16 type).run_bind]
  rw [if_neg (not_not.2 (type_bit htype)), (Reads.readUInt16 length).run_bind, (Reads.readVector cookie).run_bind,
    (Reads.readVector rest).run_bind, StateT.run_bind, StateT.run_get]
  change ((if length.toNat ≠ bytes.length then _ else _ : Reader _).run bytes).map Prod.fst = _
  rw [if_neg (not_not.2 hleft), StateT.run_bind, hleft, Nat.sub_self, hback, hattrs]
  rfl

/-- The message is written, with the number of the bytes behind the header in its length field, and it
is read from what is written. -/
def RoundTrips (cls : MessageClass) (m : StunMessage) : Prop :=
  ∃ bytes, m.write = some bytes ∧ bytes.length = kStunHeaderSize + m.length.toNat ∧ read16At bytes 2 = m.length ∧
    StunMessage.read cls bytes = some m

theorem header_field (type length : UInt16) (id : TransactionId) (rest : List UInt8) :
    read16At (StunMessage.writeHeader type length id ++ rest) 2 = length := by
  unfold StunMessage.writeHeader
  apply At.read16
  rw [List.append_assoc, List.append_assoc, List.append_assoc, ← List.append_assoc]
  exact at_suffix (be16 type) (be16 length) _

theorem round_trip {type : UInt16} {id : TransactionId} (htype : type.toNat < 0x8000) (hid : id.NotCookie)
    (hadd : (StunMessage.new type id).addAttributes cls attrs = some m)
    (hcomplete : ∀ attr ∈ attrs, attr.value.Complete id)
    (htotal : total attrs < 65536) :
    RoundTrips cls m ∧ m.type = type ∧ m.transactionId = id ∧ m.attrs = attrs := by
  obtain ⟨-, htypes⟩ := addAttributes_attrs hadd
  obtain rfl := addAttributes_some hadd htotal
  obtain ⟨bytes, hw⟩ := writeAttrs_complete hcomplete
  have hlength : ((0 : UInt16) + UInt16.ofNat (total attrs)).toNat = total attrs := by
    rw [UInt16.zero_add, UInt16.toNat_ofNat']
    exact Nat.mod_eq_of_lt htotal
  have hvalid : Valid cls id attrs := fun attr h => ⟨hcomplete attr h, htypes attr h⟩
  refine ⟨⟨StunMessage.writeHeader type (0 + UInt16.ofNat (total attrs)) id ++ bytes, ?_, ?_, ?_, ?_⟩, rfl, rfl, rfl⟩
  · simp only [StunMessage.write, StunMessage.new, List.nil_append, hw]
    rfl
  · rw [List.length_append, header_length, writeAttrs_length hw htotal]
    exact congrArg (kStunHeaderSize + ·) hlength.symm
  · exact header_field _ _ _ _
  · exact read_write htype hid hvalid htotal hw hlength

/-- A binding request with a user name, a priority and an IPv6 address. -/
theorem round_trip_request :
    RoundTrips .ice ⟨1, 40, ⟨List.replicate 12 7, .inl rfl⟩,
      [⟨username, .byteString [0x61, 0x62, 0x3A]⟩, ⟨priority, .uint32 5⟩,
        ⟨xorMappedAddress, .xorAddress (.v6 (Vector.replicate 16 1)) 4500⟩]⟩ := by
  have hadd : (StunMessage.new 1 ⟨List.replicate 12 7, .inl rfl⟩).addAttributes .ice
      [⟨username, .byteString [0x61, 0x62, 0x3A]⟩, ⟨priority, .uint32 5⟩,
        ⟨xorMappedAddress, .xorAddress (.v6 (Vector.replicate 16 1)) 4500⟩] =
      some ⟨1, 40, ⟨List.replicate 12 7, .inl rfl⟩,
        [⟨username, .byteString [0x61, 0x62, 0x3A]⟩, ⟨priority, .uint32 5⟩,
          ⟨xorMappedAddress, .xorAddress (.v6 (Vector.replicate 16 1)) 4500⟩]⟩ := by decide
  refine (round_trip (by decide) ?_ hadd ?_ ?_).1
  · rintro h
    cases h
  · simp [Value.Complete, TransactionId.isLegacy, kStunLegacyTransactionIdLength]
  · simp [total, StunAttribute.size, Value.size, IPAddress.size, padded, kStunAttributeHeaderSize]

/-- The headers of the attributes count. -/
theorem round_trip_headers :
    ∃ m, (StunMessage.new 1 ⟨List.replicate 12 7, .inl rfl⟩).addAttributes .stun
        [⟨username, .byteString (List.replicate 65532 0)⟩] = some m ∧
      padded (Value.byteString (List.replicate 65532 0)).size < 65536 ∧ ¬ RoundTrips .stun m := by
  have hsize : (Value.byteString (List.replicate 65532 0)).size = 65532 := List.length_replicate
  have hlength : (Value.byteString (List.replicate 65532 0)).length = 65532 := by
    rw [Value.length, hsize]
    rfl
  refine ⟨⟨1, 0, ⟨List.replicate 12 7, .inl rfl⟩, [⟨username, .byteString (List.replicate 65532 0)⟩]⟩, ?_, ?_, ?_⟩
  · simp only [StunMessage.addAttributes, List.foldlM_cons, List.foldlM_nil,
      StunMessage.addAttribute, StunMessage.new, hlength]
    rfl
  · rw [hsize]
    decide
  · rintro ⟨bytes, hw, hlen, -⟩
    simp only [StunMessage.write, Option.bind_eq_bind, Option.bind_eq_some_iff, Option.pure_def,
      Option.some.injEq] at hw
    obtain ⟨attrs, hattrs, rfl⟩ := hw
    obtain ⟨value, more, hvalue, hmore, rfl⟩ := writeAttrs_cons hattrs
    have hvalue := write_length hvalue (by rw [hsize]; decide)
    rw [hsize] at hvalue
    rw [List.length_append, header_length] at hlen
    simp only [List.length_append, be16_length, hvalue] at hlen
    have hzero : (0 : UInt16).toNat = 0 := rfl
    have hpadded : padded 65532 = 65532 := by decide
    omega

end Messages

end WebRtc.Stun
