import WebRtc.Rtcp.Events

/-!
# Picture ids in RPSI packets

| here | there |
| --- | --- |
| `requiredBytes`, `groups`, `withPictureId` | the two loops of `Rpsi::WithPictureId` (rtcp_packet.cc:1017), and the function |
| `createRpsi`, `Rpsi.create` | `CreateRpsi` (:371), `Rpsi::Create` (:1002) |
| `lastRound`, `callIterate` | a call of `Iterate`, up to the round with which it returns |
| `handleRPSI`, `readPictureId` | `HandleRPSI` (rtcp_receiver.cc:1122), and what it does with a `kPsfbRpsi` |

Of `NativeBitString` the sender keeps the `NumberOfValidBits / 8` bytes it has set, and the parser the bytes
it has copied from the block. A read of any other is `none`.

`HandleRPSI` is called when the type of the packet is `kPsfbRpsi`, and calls `Iterate` for the item. The item has
the same type as its header: an item that has been handled makes the receiver call it again, and where `Iterate`
comes to the header of another RPSI block, that header is taken for an item. It has set neither `NumberOfValidBits`
nor `NativeBitString`; `left` is what the union holds in the place of the first.
-/

namespace WebRtc.Rtcp

open Bytes
open WebRtc.Rtcp.Parser

/-! ## The sender -/

structure Rpsi where
  senderSsrc : UInt32
  mediaSsrc : UInt32
  payloadType : UInt8
  numberOfValidBits : UInt16
  nativeBitString : List UInt8
  paddingBytes : UInt8

/-- The rounds of the `do` loop. A 64-bit number has ten groups of seven bits. -/
def requiredBytes : Nat → UInt64 → Nat
  | 0, _ => 0
  | fuel + 1, shiftedPid =>
    let shiftedPid := (shiftedPid >>> 7) &&& 0x1ffffffffffffff
    if shiftedPid > 0 then requiredBytes fuel shiftedPid + 1 else 1

/-- The bytes of the `for` loop, from `i` down to 1. -/
def groups (pictureId : UInt64) : Nat → List UInt8
  | 0 => []
  | i + 1 => (0x80 ||| (pictureId >>> UInt64.ofNat ((i + 1) * 7)).toUInt8) :: groups pictureId i

def Rpsi.withPictureId (rpsi : Rpsi) (pictureId : UInt64) : Rpsi :=
  let required := requiredBytes 10 pictureId
  let native := groups pictureId (required - 1) ++ [(pictureId &&& 0x7f).toUInt8]
  let padding := 4 - (2 + required) % 4
  { rpsi with
    nativeBitString := native
    numberOfValidBits := UInt16.ofNat (native.length * 8)
    paddingBytes := UInt8.ofNat (if padding = 4 then 0 else padding) }

def createRpsi (rpsi : Rpsi) : List UInt8 :=
  be32 rpsi.senderSsrc ++ be32 rpsi.mediaSsrc ++ [rpsi.paddingBytes * 8, rpsi.payloadType] ++
    rpsi.nativeBitString.take (rpsi.numberOfValidBits.toNat / 8) ++ List.replicate rpsi.paddingBytes.toNat 0

def Rpsi.blockLength (rpsi : Rpsi) : Nat := 12 + (2 + rpsi.numberOfValidBits.toNat / 8 + rpsi.paddingBytes.toNat)

def Rpsi.block (rpsi : Rpsi) : List UInt8 := createHeader 3 206 ((rpsi.blockLength + 3) / 4 - 1) ++ createRpsi rpsi

def Rpsi.create (rpsi : Rpsi) (maxLength : Nat) (b : Buffers) : Option Buffers :=
  (b.makeRoom rpsi.blockLength maxLength).map fun b => { b with packet := b.packet ++ rpsi.block }

/-! ## The receiver -/

/-- `NativeBitString[n]`, if it is one of the bytes the parser has set. -/
def nativeByte (native : List UInt8) (n : Int) : Option UInt8 := if 0 ≤ n then native[n.toNat]? else none

/-- `k` rounds of the loop, from `n` on. -/
def rpsiLoop (native : List UInt8) : Nat → Nat → UInt64 → Option UInt64
  | 0, _, rpsiPictureId => some rpsiPictureId
  | k + 1, n, rpsiPictureId => do
    let byte ← nativeByte native n
    rpsiLoop native k (n + 1) ((rpsiPictureId + (byte &&& 0x7f).toUInt64) <<< 7)

/-- The picture id that is reported, if one is. -/
def readPictureId (numberOfValidBits : UInt16) (native : List UInt8) : Option (Option UInt64) :=
  if numberOfValidBits % 8 ≠ 0 then some none -- to us unknown
  else do
    let numberOfBytes := (numberOfValidBits / 8).toUInt8
    let rpsiPictureId ← rpsiLoop native (numberOfBytes.toNat - 1) 0 0
    let byte ← nativeByte native (numberOfBytes.toNat - 1)
    return some (rpsiPictureId + (byte &&& 0x7f).toUInt64)

/-- `_packet.RPSI.NumberOfValidBits` behind a report. -/
def RpsiFields.numberOfValidBits (left : UInt16) : RpsiFields → UInt16
  | header _ _ => left
  | item _ numberOfValidBits _ => numberOfValidBits

/-- The bytes of `_packet.RPSI.NativeBitString` that the parser has filled from the block. -/
def RpsiFields.nativeBitString : RpsiFields → List UInt8
  | header _ _ => []
  | item _ _ nativeBitString => nativeBitString

section Calls
variable (buf : List UInt8) {F : Type} (parseFrom : List UInt8 → Option F)

/-- The parser in front of the round with which a call of `Iterate` returns, if one of `fuel` rounds does. -/
def lastRound : Nat → Parser F → Option (Parser F)
  | 0, _ => none
  | fuel + 1, s => if (s.iterate buf parseFrom).2 then some s else lastRound fuel (s.iterate buf parseFrom).1

def callIterate (fuel : Nat) (s : Parser F) : Option (Parser F) :=
  (lastRound buf parseFrom fuel s).map fun u => (u.iterate buf parseFrom).1

/-- How a call of `HandleRPSI` ends. -/
inductive Handled (F : Type) where
  /-- The parser has not returned yet. -/
  | running
  /-- A byte of `NativeBitString` is read that the parser has not filled from the block. -/
  | outside
  /-- The parser is left so; whether `kRtcpRpsi` has been set, and the picture id that has been reported. -/
  | returned (parser : Parser F) (kRtcpRpsi : Bool) (rpsiPictureId : Option UInt64)

def handleRPSI (fuel : Nat) (left : UInt16) (s : Parser F) : Handled F :=
  match callIterate buf parseFrom fuel s with
  | none => .running
  | some t =>
    match t.packet with
    | some (.psfbRpsi fields) =>
      match readPictureId (fields.numberOfValidBits left) fields.nativeBitString with
      | none => .outside
      | some none => -- to us unknown
        match callIterate buf parseFrom fuel t with
        | none => .running
        | some u => .returned u true none
      | some (some id) => .returned t true (some id)
    | _ => .returned t false none

end Calls

/-! ## Groups of seven bits -/

theorem low_group (x : UInt8) : ((0x80 ||| x) &&& 0x7f).toNat = x.toNat % 128 ∧
    (x &&& 0x7f).toNat = x.toNat % 128 := by
  revert x
  decide +kernel

theorem shift_seven (x : UInt64) : ((x >>> 7) &&& 0x1ffffffffffffff).toNat = x.toNat / 128 := by
  have h7 : (7 : UInt64).toNat % 64 = 7 := rfl
  have hmask : (0x1ffffffffffffff : UInt64).toNat = 2 ^ 57 - 1 := rfl
  have := x.toNat_lt
  rw [UInt64.toNat_and, UInt64.toNat_shiftRight, h7, hmask, Nat.and_two_pow_sub_one_eq_mod, Nat.shiftRight_eq_div_pow]
  omega

/-- As many groups as the number needs. -/
theorem requiredBytes_spec {fuel : Nat} {x : UInt64} (h : x.toNat < 128 ^ fuel) (hf : 0 < fuel) :
    0 < requiredBytes fuel x ∧ requiredBytes fuel x ≤ fuel ∧ x.toNat < 128 ^ requiredBytes fuel x := by
  induction fuel generalizing x with
  | zero => omega
  | succ fuel ih =>
    rw [Nat.pow_succ] at h
    unfold requiredBytes
    dsimp only
    split
    · rename_i hpos
      rw [gt_iff_lt, UInt64.lt_iff_toNat_lt, shift_seven, UInt64.toNat_zero] at hpos
      have hlt : ((x >>> 7) &&& 0x1ffffffffffffff).toNat < 128 ^ fuel := by
        rw [shift_seven]
        omega
      have hfuel : 0 < fuel := by
        rcases Nat.eq_zero_or_pos fuel with rfl | hfuel
        · omega
        · exact hfuel
      obtain ⟨-, h2, h3⟩ := ih hlt hfuel
      rw [shift_seven] at h3
      refine ⟨by omega, by omega, ?_⟩
      rw [Nat.pow_succ]
      omega
    · rename_i hzero
      rw [gt_iff_lt, UInt64.lt_iff_toNat_lt, shift_seven, UInt64.toNat_zero] at hzero
      exact ⟨by omega, by omega, by omega⟩

@[simp] theorem groups_length (x : UInt64) (i : Nat) : (groups x i).length = i := by
  induction i with
  | zero => rfl
  | succ i ih => rw [groups, List.length_cons, ih]

theorem nativeByte_append (pre : List UInt8) (b : UInt8) (rest : List UInt8) :
    nativeByte (pre ++ b :: rest) (pre.length : Nat) = some b := by
  rw [nativeByte, if_pos (Int.natCast_nonneg _), Int.toNat_natCast, List.getElem?_append_right (Nat.le_refl _),
    Nat.sub_self, List.getElem?_cons_zero]

/-- With `k` groups to come, the groups above them have been put together and shifted. -/
theorem rpsiLoop_groups (id : UInt64) {k : Nat} (hk : k ≤ 9) (pre rest : List UInt8) {acc : UInt64}
    (hacc : acc.toNat = id.toNat / 128 ^ (k + 1) * 128) :
    ∃ out, rpsiLoop (pre ++ (groups id k ++ rest)) k pre.length acc = some out ∧ out.toNat = id.toNat / 128 * 128 := by
  induction k generalizing pre acc with
  | zero => exact ⟨acc, rfl, by rw [hacc, Nat.zero_add, Nat.pow_one]⟩
  | succ k ih =>
    have hshift : (UInt64.ofNat ((k + 1) * 7)).toNat % 64 = 7 * (k + 1) := by
      rw [UInt64.toNat_ofNat']
      omega
    have hpow : (2 : Nat) ^ (7 * (k + 1)) = 128 ^ (k + 1) := by rw [Nat.pow_mul]
    have hbyte : ((0x80 ||| (id >>> UInt64.ofNat ((k + 1) * 7)).toUInt8) &&& 0x7f).toNat =
        id.toNat / 128 ^ (k + 1) % 128 := by
      rw [(low_group _).1, UInt64.toNat_toUInt8, UInt64.toNat_shiftRight, hshift, Nat.shiftRight_eq_div_pow, hpow]
      omega
    have hseven : (7 : UInt64).toNat % 64 = 7 := rfl
    have hdiv : id.toNat / 128 ^ (k + 1 + 1) = id.toNat / 128 ^ (k + 1) / 128 := by
      rw [Nat.pow_succ _ (k + 1), Nat.div_div_eq_div_mul]
    have hle : id.toNat / 128 ^ (k + 1) ≤ id.toNat / 128 := by
      rw [Nat.pow_succ, Nat.mul_comm, ← Nat.div_div_eq_div_mul]
      exact Nat.div_le_self _ _
    have hid := id.toNat_lt
    have hacc' : ((acc + ((0x80 ||| (id >>> UInt64.ofNat ((k + 1) * 7)).toUInt8) &&& 0x7f).toUInt64) <<< 7).toNat =
        id.toNat / 128 ^ (k + 1) * 128 := by
      rw [UInt64.toNat_shiftLeft, UInt64.toNat_add, UInt8.toNat_toUInt64, hbyte, hacc, hdiv, hseven, Nat.shiftLeft_eq]
      omega
    have hmore := ih (by omega) (pre ++ [0x80 ||| (id >>> UInt64.ofNat ((k + 1) * 7)).toUInt8]) hacc'
    rw [List.length_append, List.length_singleton, List.append_assoc, List.singleton_append] at hmore
    rw [groups, List.cons_append, rpsiLoop, nativeByte_append]
    exact hmore

/-- What the receiver makes of a number of bits that is so many bytes. -/
theorem readPictureId_bytes {bits : UInt16} (h : bits.toNat % 8 = 0) (native : List UInt8) :
    readPictureId bits native = (do
      let id ← rpsiLoop native (bits.toNat / 8 % 256 - 1) 0 0
      let byte ← nativeByte native ((bits.toNat / 8 % 256 : Nat) - 1)
      return some (id + (byte &&& 0x7f).toUInt64)) := by
  have hmod : bits % 8 = 0 := by
    rw [← UInt16.toNat_inj, UInt16.toNat_mod]
    exact h
  have hbytes : (bits / 8).toUInt8.toNat = bits.toNat / 8 % 256 := by
    rw [UInt16.toNat_toUInt8, UInt16.toNat_div]
    rfl
  have hnot : ¬ bits % 8 ≠ 0 := not_not_intro hmod
  rw [readPictureId, if_neg hnot]
  dsimp only
  rw [hbytes]

/-- The receiver puts the groups together again, whatever follows them. -/
theorem readPictureId_groups (id : UInt64) {k : Nat} (hk : k ≤ 9) (hid : id.toNat < 128 ^ (k + 1)) (rest : List UInt8) :
    readPictureId (UInt16.ofNat ((k + 1) * 8)) (groups id k ++ ((id &&& 0x7f).toUInt8 :: rest)) = some (some id) := by
  have hbits : (UInt16.ofNat ((k + 1) * 8)).toNat = (k + 1) * 8 := by
    rw [UInt16.toNat_ofNat', Nat.mod_eq_of_lt (by omega)]
  have hcount : (k + 1) * 8 / 8 % 256 = k + 1 := by omega
  have hlast : ((k + 1 : Nat) : Int) - 1 = ((groups id k).length : Nat) := by
    rw [groups_length]
    omega
  have hzero : (0 : UInt64).toNat = id.toNat / 128 ^ (k + 1) * 128 := by
    rw [Nat.div_eq_of_lt hid, Nat.zero_mul]
    rfl
  obtain ⟨out, hout, hval⟩ := rpsiLoop_groups id hk [] ((id &&& 0x7f).toUInt8 :: rest) hzero
  have hlow : ((id &&& 0x7f).toUInt8 &&& 0x7f).toNat = id.toNat % 128 := by
    have hmask : (0x7f : UInt64).toNat = 2 ^ 7 - 1 := rfl
    rw [(low_group _).2, UInt64.toNat_toUInt8, UInt64.toNat_and, hmask, Nat.and_two_pow_sub_one_eq_mod]
    omega
  have hsum : out + ((id &&& 0x7f).toUInt8 &&& 0x7f).toUInt64 = id := by
    have := id.toNat_lt
    apply UInt64.toNat_inj.1
    rw [UInt64.toNat_add, UInt8.toNat_toUInt64, hval, hlow]
    omega
  rw [readPictureId_bytes (by omega), hbits, hcount, Nat.add_sub_cancel, hlast, nativeByte_append]
  have hloop : rpsiLoop (groups id k ++ ((id &&& 0x7f).toUInt8 :: rest)) k 0 0 = some out := hout
  rw [hloop]
  show some (some _) = _
  rw [hsum]

/-! ## What is read -/

theorem nativeByte_isSome {native : List UInt8} {n : Int} :
    (nativeByte native n).isSome = true ↔ 0 ≤ n ∧ n < native.length := by
  unfold nativeByte
  split
  · rw [isSome_getElem?]
    omega
  · simp only [Option.isSome_none, Bool.false_eq_true, false_iff]
    omega

theorem rpsiLoop_isSome {native : List UInt8} {k n : Nat} {acc : UInt64} (hn : n ≤ native.length) :
    (rpsiLoop native k n acc).isSome = true ↔ n + k ≤ native.length := by
  induction k generalizing n acc with
  | zero => simpa [rpsiLoop] using hn
  | succ k ih =>
    unfold rpsiLoop
    cases hb : nativeByte native n with
    | none =>
      have hno : ¬ (nativeByte native n).isSome = true := by rw [hb]; simp
      rw [nativeByte_isSome] at hno
      simp only [Option.bind_eq_bind, Option.bind_none, Option.isSome_none, Bool.false_eq_true, false_iff]
      omega
    | some b =>
      have hyes : (nativeByte native n).isSome = true := by rw [hb]; rfl
      rw [nativeByte_isSome] at hyes
      simp only [Option.bind_eq_bind, Option.bind_some]
      rw [ih (by omega)]
      omega

/-- The receiver reads bytes that are set, and one of them at least, or it does not take the bits for bytes. -/
theorem readPictureId_isSome {bits : UInt16} {native : List UInt8} : (readPictureId bits native).isSome = true ↔
    bits.toNat % 8 ≠ 0 ∨ (0 < bits.toNat / 8 % 256 ∧ bits.toNat / 8 % 256 ≤ native.length) := by
  by_cases h : bits.toNat % 8 = 0
  · rw [readPictureId_bytes h]
    cases hl : rpsiLoop native (bits.toNat / 8 % 256 - 1) 0 0 with
    | none =>
      have hno : ¬ (rpsiLoop native (bits.toNat / 8 % 256 - 1) 0 0).isSome = true := by rw [hl]; simp
      rw [rpsiLoop_isSome (Nat.zero_le _)] at hno
      simp only [Option.bind_eq_bind, Option.bind_none, Option.isSome_none, Bool.false_eq_true, false_iff]
      omega
    | some id =>
      have hyes : (rpsiLoop native (bits.toNat / 8 % 256 - 1) 0 0).isSome = true := by rw [hl]; rfl
      rw [rpsiLoop_isSome (Nat.zero_le _)] at hyes
      simp only [Option.bind_eq_bind, Option.bind_some, Option.isSome_bind, Option.pure_def, Option.isSome_some,
        Option.any_true, nativeByte_isSome]
      omega
  · have hmod : bits % 8 ≠ 0 := by
      rw [ne_eq, ← UInt16.toNat_inj, UInt16.toNat_mod]
      exact h
    rw [readPictureId, if_pos hmod]
    simp [h]

/-! ## Calls of `Iterate` -/

variable {buf : List UInt8} {F : Type} {parseFrom : List UInt8 → Option F} {s t u : Parser F} {p : Nat}

theorem callIterate_returned {fuel : Nat} (h : s.iterate buf parseFrom = (t, true)) :
    callIterate buf parseFrom (fuel + 1) s = some t := by
  rw [callIterate, lastRound, h]
  exact congrArg (fun r => some r.1) h

theorem lastRound_returns {fuel : Nat} (h : lastRound buf parseFrom fuel s = some u) :
    (u.iterate buf parseFrom).2 = true := by
  induction fuel generalizing s with
  | zero => cases h
  | succ fuel ih =>
    rw [lastRound] at h
    split at h
    · rename_i hret
      cases h
      exact hret
    · exact ih h

section Handle
variable {fuel : Nat} {left : UInt16} (hcall : callIterate buf parseFrom fuel s = some t)
include hcall

theorem handleRPSI_item {payloadType : UInt8} {bits : UInt16} {native : List UInt8} {id : UInt64}
    (hpacket : t.packet = some (.psfbRpsi (.item payloadType bits native)))
    (hid : readPictureId bits native = some (some id)) :
    handleRPSI buf parseFrom fuel left s = .returned t true (some id) := by
  have hread : readPictureId (RpsiFields.numberOfValidBits left (.item payloadType bits native))
      (RpsiFields.nativeBitString (.item payloadType bits native)) = some (some id) := hid
  simp only [handleRPSI, hcall, hpacket, hread]

/-- Only what a packet of the type makes it read can lie outside. -/
theorem handleRPSI_outside_iff : handleRPSI buf parseFrom fuel left s = .outside ↔
    ∃ fields, t.packet = some (.psfbRpsi fields) ∧
      readPictureId (fields.numberOfValidBits left) fields.nativeBitString = none := by
  simp only [handleRPSI, hcall]
  split
  · rename_i fields hpacket
    rw [hpacket]
    constructor
    · intro h
      refine ⟨fields, rfl, ?_⟩
      split at h
      · assumption
      · split at h <;> cases h
      · cases h
    · rintro ⟨fields', hfields, hread⟩
      cases hfields
      rw [hread]
  · rename_i hother
    refine iff_of_false (fun h => by cases h) ?_
    rintro ⟨fields, hpacket, -⟩
    exact hother fields hpacket

end Handle

/-! ## What else is reported -/

/-- `PacketType()` is not `kPsfbRpsi`. -/
def OtherType (s : Parser F) : Prop := ∀ fields, s.packet ≠ some (.psfbRpsi fields)

theorem otherType_none (h : s.packet = none) : OtherType s := by
  intro fields
  rw [h]
  exact nofun

section Others
variable (h : s.packet = none)
include h

theorem parseItem_other {need : Nat} {item : Packet F} (hitem : ∀ fields, item ≠ .psfbRpsi fields) :
    OtherType (s.parseItem buf need item).1 := by
  intro fields
  unfold parseItem
  split
  · simp [h]
  · simpa using hitem fields

theorem parseCountedItem_other {need : Nat} {item : Packet F} (hitem : ∀ fields, item ≠ .psfbRpsi fields) :
    OtherType (s.parseCountedItem buf need item).1 := by
  intro fields
  unfold parseCountedItem
  split
  · simp [h]
  · simpa using hitem fields

theorem parseBYEItem_other : OtherType (s.parseBYEItem buf).1 := by
  intro fields
  unfold parseBYEItem
  dsimp only
  split
  · simp [h]
  · split <;> simp

theorem parseXrItem_other : OtherType (s.parseXrItem buf).1 := by
  intro fields
  unfold parseXrItem
  dsimp only
  split
  · simp [h]
  · split
    · unfold parseXrReceiverReferenceTimeItem
      split <;> simp [h]
    · split
      · unfold parseXrDlrr
        split <;> simp [h]
      · split
        · unfold parseXrVoipMetricItem
          split <;> simp [h]
        · unfold parseXrUnsupportedBlockType
          split <;> simp [h]

theorem parseXrDlrrItem_other : OtherType (s.parseXrDlrrItem buf).1 := by
  intro fields
  unfold parseXrDlrrItem
  split
  · simp [h]
  · split <;> simp [h]

theorem parsePsfbAppItem_other : OtherType (s.parsePsfbAppItem buf).1 := by
  intro fields
  unfold parsePsfbAppItem
  repeat' split
  all_goals simp [h]

theorem parsePsfbREMBItem_other : OtherType (s.parsePsfbREMBItem buf).1 := by
  intro fields
  unfold parsePsfbREMBItem
  dsimp only
  split
  · simp [h]
  · split <;> simp [h]

theorem parseAPPItem_other : OtherType (s.parseAPPItem buf).1 := by
  intro fields
  unfold parseAPPItem
  dsimp only
  split <;> simp [h]

omit h in
theorem sdesItemLoop_packet (fuel octets : Nat) (found : Option (List UInt8)) :
    (sdesItemLoop buf fuel s octets found).1.packet = s.packet := by
  induction fuel generalizing s octets found with
  | zero => rfl
  | succ fuel ih =>
    unfold sdesItemLoop
    dsimp only
    split
    · rfl
    · split
      · rfl
      · split
        · exact ih ..
        · split
          · split
            · rfl
            · split
              · rfl
              · exact ih ..
          · exact ih ..

theorem sdesChunkLoop_other (fuel : Nat) : OtherType (sdesChunkLoop buf fuel s).1 := by
  induction fuel generalizing s with
  | zero => exact otherType_none h
  | succ fuel ih =>
    unfold sdesChunkLoop
    dsimp only
    have hitem : ((s.moveTo buf (s.ptr + 4)).parseSDESItem buf).1.packet = none :=
      (sdesItemLoop_packet ..).trans h
    split
    · exact otherType_none h
    · split
      · intro fields
        simp
      · exact ih hitem

theorem parseSDESChunk_other : OtherType (s.parseSDESChunk buf).1 := by
  unfold parseSDESChunk
  split
  · exact otherType_none h
  · have hcounted : ({ s with numberOfBlocks := s.numberOfBlocks - 1 } : Parser F).packet = none := h
    exact sdesChunkLoop_other hcounted _

/-- Among the items only those of an RPSI block. -/
theorem dispatch_other (hstate : s.state ≠ .topLevel) (hrpsi : s.state ≠ .psfbRpsiItem) :
    OtherType (s.dispatch buf parseFrom).1 := by
  unfold dispatch
  cases hs : s.state with
  | topLevel => exact absurd hs hstate
  | psfbRpsiItem => exact absurd hs hrpsi
  | reportBlockItem | extendedJitterItem => exact parseCountedItem_other h nofun
  | sdesChunk => exact parseSDESChunk_other h
  | byeItem => exact parseBYEItem_other h
  | rtpfbNackItem | rtpfbTmmbrItem | rtpfbTmmbnItem | psfbSliItem | psfbFirItem => exact parseItem_other h nofun
  | psfbAppItem => exact parsePsfbAppItem_other h
  | psfbRembItem => exact parsePsfbREMBItem_other h
  | xrItem => exact parseXrItem_other h
  | xrDlrrItem => exact parseXrDlrrItem_other h
  | appItem => exact parseAPPItem_other h

theorem parseRtpfb_other (fmt : Nat) (sender media : UInt32) (block : List UInt8) :
    OtherType (s.parseRtpfb buf parseFrom fmt sender media block).1 := by
  intro fields
  unfold parseRtpfb
  repeat' split
  all_goals simp [h]

theorem parsePsfb_other {fmt : Nat} (hfmt : fmt ≠ 3) (sender media : UInt32) :
    OtherType (s.parsePsfb fmt sender media).1 := by
  intro fields
  unfold parsePsfb
  rw [if_neg hfmt]
  repeat' split
  all_goals simp [h]

/-- Among the blocks only RPSI, when there is room for its SSRCs. -/
theorem topLevelBlock_other {header : CommonHeader}
    (hno : ¬ (header.packetType = ptPSFB ∧ header.countOrFormat = 3 ∧ 12 ≤ s.length)) :
    OtherType (s.topLevelBlock buf parseFrom header).1 := by
  unfold topLevelBlock
  dsimp only
  split
  · intro fields
    unfold parseSR
    dsimp only
    split
    · simp [h]
    · split <;> simp
  split
  · intro fields
    unfold parseRR
    split <;> simp [h]
  split
  · intro fields
    unfold parseSDES
    split <;> simp [h]
  split
  · exact parseBYEItem_other h
  split
  · intro fields
    unfold parseIJ
    split <;> simp [h]
  split
  · unfold parseFBCommon
    dsimp only
    have hmoved : (s.moveTo buf (s.ptr + 12)).packet = none := h
    split
    · exact otherType_none h
    · split
      · exact parseRtpfb_other hmoved _ _ _ _
      · rename_i hfb hroom hrtpfb
        have hpsfb : header.packetType = ptPSFB := hfb.resolve_left hrtpfb
        exact parsePsfb_other hmoved (fun hfmt => hno ⟨hpsfb, hfmt, Nat.not_lt.1 hroom⟩) _ _
  split
  · intro fields
    unfold parseAPP
    split <;> simp [h]
  split
  · intro fields
    unfold parseXr
    split <;> simp [h]
  · exact otherType_none h

end Others
/-! ## A block -/

/-- What the sender has set. -/
theorem withPictureId_fields (rpsi : Rpsi) (id : UInt64) : ∃ k ≤ 9, id.toNat < 128 ^ (k + 1) ∧
    (rpsi.withPictureId id).nativeBitString = groups id k ++ [(id &&& 0x7f).toUInt8] ∧
    (rpsi.withPictureId id).numberOfValidBits.toNat = (k + 1) * 8 ∧
    (rpsi.withPictureId id).paddingBytes.toNat < 4 ∧
    4 ∣ 2 + (k + 1) + (rpsi.withPictureId id).paddingBytes.toNat := by
  have hid : id.toNat < 128 ^ 10 := Nat.lt_trans id.toNat_lt (by decide)
  obtain ⟨h0, h10, hlt⟩ := requiredBytes_spec hid (by decide)
  obtain ⟨k, hk⟩ : ∃ k, requiredBytes 10 id = k + 1 := ⟨_, (Nat.sub_add_cancel h0).symm⟩
  have hfields : rpsi.withPictureId id = { rpsi with
      nativeBitString := groups id k ++ [(id &&& 0x7f).toUInt8]
      numberOfValidBits := UInt16.ofNat ((k + 1) * 8)
      paddingBytes := UInt8.ofNat (if 4 - (2 + (k + 1)) % 4 = 4 then 0 else 4 - (2 + (k + 1)) % 4) } := by
    rw [Rpsi.withPictureId, hk, List.length_append, Nat.add_sub_cancel, groups_length]
    rfl
  have hpad : (if 4 - (2 + (k + 1)) % 4 = 4 then 0 else 4 - (2 + (k + 1)) % 4) < 4 ∧
      4 ∣ 2 + (k + 1) + (if 4 - (2 + (k + 1)) % 4 = 4 then 0 else 4 - (2 + (k + 1)) % 4) := by
    split <;> omega
  rw [hk] at h10 hlt
  rw [hfields]
  refine ⟨k, by omega, hlt, rfl, ?_, ?_⟩
  · rw [UInt16.toNat_ofNat', Nat.mod_eq_of_lt (by omega)]
  · rw [UInt8.toNat_ofNat', Nat.mod_eq_of_lt (by omega)]
    exact hpad

theorem bytesAt_eq {bytes : List UInt8} (h : At buf p bytes) : bytesAt buf p bytes.length = bytes := by
  refine List.ext_getElem (by rw [bytesAt, List.length_map, List.length_range]) fun i h1 h2 => ?_
  simp only [bytesAt, List.getElem_map, List.getElem_range]
  exact h.bytes h2

/-- The number of valid bits, as the parser computes it. -/
theorem validBits_toNat {n : Nat} (hn : n ≤ 30) (padding : UInt8) :
    (UInt16.ofNat n * 8 - padding.toUInt16).toNat = (n * 8 + 65536 - padding.toNat) % 65536 := by
  have h8 : (8 : UInt16).toNat = 8 := rfl
  have := padding.toNat_lt
  rw [UInt16.toNat_sub, UInt16.toNat_mul, UInt16.toNat_ofNat', UInt8.toNat_toUInt16, h8]
  omega

/-- The padding of the item at the parser is not in whole bytes, or leaves some of its bits. -/
def PaddingLeaves (buf : List UInt8) (u : Parser F) : Prop :=
  (byteAt buf u.ptr).toNat % 8 ≠ 0 ∨ (byteAt buf u.ptr).toNat < (u.length - 2) * 8

/-- What is read of an item that is accepted is in the block, unless the padding takes up all of it. -/
theorem parseRPSIItem_reads {t : Parser F} (h : s.parseRPSIItem buf = (t, true)) :
    ∃ payloadType bits native, t.packet = some (.psfbRpsi (.item payloadType bits native)) ∧
      ((readPictureId bits native).isSome = true ↔ PaddingLeaves buf s) := by
  unfold parseRPSIItem at h
  split at h
  · cases (Prod.mk.inj h).2
  rename_i hlen
  rw [← (Prod.mk.inj h).1]
  refine ⟨_, _, _, rfl, ?_⟩
  have hnative : (bytesAt buf (s.ptr + 2) (s.length - 2)).length = s.length - 2 := by
    rw [bytesAt, List.length_map, List.length_range]
  have := (byteAt buf s.ptr).toNat_lt
  rw [readPictureId_isSome, hnative, validBits_toNat (by omega), PaddingLeaves]
  omega

variable (parseFrom) in
/-- The item of a block. -/
theorem parseRPSIItem_create (rpsi : Rpsi) (id : UInt64) {e : Nat}
    (hat : At buf p ([(rpsi.withPictureId id).paddingBytes * 8, rpsi.payloadType] ++
      ((rpsi.withPictureId id).nativeBitString ++ List.replicate (rpsi.withPictureId id).paddingBytes.toNat 0)))
    (he : e = p + (2 + ((rpsi.withPictureId id).nativeBitString.length + (rpsi.withPictureId id).paddingBytes.toNat)))
    (hs : InItems .psfbRpsiItem s p e) :
    ∃ bits native t, s.iterate buf parseFrom = (t, true) ∧
      t.packet = some (.psfbRpsi (.item rpsi.payloadType bits native)) ∧ InItems .psfbRpsiItem t e e ∧
      readPictureId bits native = some (some id) := by
  obtain ⟨k, hk, hlt, hnative, hbits, hpad, hdvd⟩ := withPictureId_fields rpsi id
  generalize (rpsi.withPictureId id).paddingBytes = padding at *
  rw [hnative] at hat he
  rw [List.length_append, groups_length, List.length_singleton] at he
  obtain ⟨hhead, hdata⟩ := at_append.1 hat
  obtain ⟨h0, h1⟩ := at_cons.1 hhead
  have hdata := bytesAt_eq hdata
  have hsize : (groups id k ++ [(id &&& 0x7f).toUInt8] ++ List.replicate padding.toNat 0).length =
      k + 1 + padding.toNat := by
    rw [List.length_append, List.length_append, groups_length, List.length_singleton, List.length_replicate]
  rw [hsize] at hdata
  have hdata : bytesAt buf (p + 2) (k + 1 + padding.toNat) = _ := hdata
  have hlen : s.clear.length = 2 + (k + 1 + padding.toNat) := InItems.length (he ▸ hs)
  have hptr : s.clear.ptr = p := hs.ptr
  have hstate : s.clear.state = .psfbRpsiItem := hs.state
  have hvalid : UInt16.ofNat (k + 1 + padding.toNat) * 8 - (byteAt buf p).toUInt16 = UInt16.ofNat ((k + 1) * 8) := by
    have h8 : (8 : UInt8).toNat = 8 := rfl
    rw [← UInt16.toNat_inj, validBits_toNat (by omega), h0.byte, UInt8.toNat_mul, h8, UInt16.toNat_ofNat']
    omega
  have hround : s.iterate buf parseFrom = ((s.clear.moveTo buf e).report (.psfbRpsi (.item rpsi.payloadType
      (UInt16.ofNat ((k + 1) * 8)) (groups id k ++ [(id &&& 0x7f).toUInt8] ++ List.replicate padding.toNat 0))),
      true) := by
    rw [iterate_state hs, dispatch, hstate]
    dsimp only
    rw [parseRPSIItem, hlen, if_neg (by omega), hptr, Nat.add_sub_cancel_left, hvalid, h1.byte, hdata, he]
  refine ⟨_, _, _, hround, rfl, ⟨hs.valid, hstate, rfl, hs.blockEnd⟩, ?_⟩
  rw [List.append_assoc, List.singleton_append]
  exact readPictureId_groups id hk hlt _

theorem block_length (rpsi : Rpsi) (id : UInt64) :
    (rpsi.withPictureId id).block.length = (rpsi.withPictureId id).blockLength := by
  obtain ⟨k, -, -, hnative, hbits, -, -⟩ := withPictureId_fields rpsi id
  simp only [Rpsi.block, createRpsi, Rpsi.blockLength, List.length_append, createHeader_length, be32_length,
    List.length_cons, List.length_nil, List.length_take, List.length_replicate, hnative, hbits, groups_length]
  omega

variable (parseFrom) in
/-- A block behind others is parsed, and its picture id comes back. -/
theorem block_run (rpsi : Rpsi) (id : UInt64) (h : AtTop s p) (hp : p ≤ buf.length)
    (hat : At buf p (rpsi.withPictureId id).block) :
    ∃ header t u, s.iterate buf parseFrom = (header, true) ∧
      header.packet = some (.psfbRpsi (.header rpsi.senderSsrc rpsi.mediaSsrc)) ∧
      (∀ fuel left, handleRPSI buf parseFrom (fuel + 1) left header = .returned t true (some id)) ∧
      Run buf parseFrom t [] u ∧ AtTop u (p + (rpsi.withPictureId id).block.length) := by
  have hfits := hat.length_le hp
  obtain ⟨k, hk, -, hnative, hbits, hpad, hdvd⟩ := withPictureId_fields rpsi id
  have hlength : (rpsi.withPictureId id).nativeBitString.length = k + 1 := by
    rw [hnative, List.length_append, groups_length, List.length_singleton]
  have htake : (rpsi.withPictureId id).nativeBitString.take ((rpsi.withPictureId id).numberOfValidBits.toNat / 8) =
      (rpsi.withPictureId id).nativeBitString := List.take_of_length_le (by rw [hlength, hbits]; omega)
  rw [block_length] at hfits ⊢
  have hsize : (rpsi.withPictureId id).blockLength = 14 + (k + 1) + (rpsi.withPictureId id).paddingBytes.toNat := by
    rw [Rpsi.blockLength, hbits]
    omega
  have hblock : (rpsi.withPictureId id).block =
      createHeader 3 206 ((14 + (k + 1) + (rpsi.withPictureId id).paddingBytes.toNat + 3) / 4 - 1) ++
        be32 rpsi.senderSsrc ++ be32 rpsi.mediaSsrc ++ ([(rpsi.withPictureId id).paddingBytes * 8, rpsi.payloadType] ++
        ((rpsi.withPictureId id).nativeBitString ++ List.replicate (rpsi.withPictureId id).paddingBytes.toNat 0)) := by
    rw [Rpsi.block, createRpsi, htake, hsize]
    simp only [List.append_assoc]
    rfl
  rw [hblock] at hat
  rw [hsize] at hfits ⊢
  obtain ⟨hfixed, hitem⟩ := at_append.1 hat
  have hitem : At buf (p + 12) _ := hitem
  generalize hwords : (14 + (k + 1) + (rpsi.withPictureId id).paddingBytes.toNat + 3) / 4 - 1 = words at hfixed
  have hend : p + (words + 1) * 4 = p + (14 + (k + 1) + (rpsi.withPictureId id).paddingBytes.toNat) := by omega
  obtain ⟨t, block, ht, hte, hround⟩ := @iterate_feedback _ _ parseFrom _ _ _ _ 206 _ _ (Or.inr rfl) (by decide)
    (by omega) (by omega) h (by omega) hfixed
  rw [if_neg (by decide), parsePsfb] at hround
  have hin : InItems .psfbRpsiItem
      ({ t.report (.psfbRpsi (.header rpsi.senderSsrc rpsi.mediaSsrc)) with state := .psfbRpsiItem } : Parser F)
        (p + 12)
      (p + (14 + (k + 1) + (rpsi.withPictureId id).paddingBytes.toNat)) := ⟨ht.valid, rfl, ht.ptr, hte.trans hend⟩
  obtain ⟨bits, native, u, hu, hup, hus, hid⟩ := parseRPSIItem_create parseFrom rpsi id hitem
    (by rw [hlength]; omega) hin
  -- There is nothing behind the item.
  have hstate : u.clear.state = .psfbRpsiItem := hus.state
  have hnone : u.clear.length = 0 := InItems.length (n := 0) hus
  obtain ⟨v, hv, hvt⟩ := @endItem_run buf F parseFrom _ _ _ _ hus (by
    rw [dispatch, hstate]
    dsimp only
    rw [parseRPSIItem, hnone, if_pos (by decide)])
  refine ⟨_, u, v, hround, rfl, fun fuel left => ?_, hv, hvt⟩
  exact handleRPSI_item (callIterate_returned hu) hup hid

/-- What a block that is added to a buffer stands behind. -/
theorem create_packet {rpsi : Rpsi} {maxLength : Nat} {b b' : Buffers} (h : rpsi.create maxLength b = some b') :
    ∃ pre, b'.packet = pre ++ rpsi.block := by
  obtain ⟨c, -, rfl⟩ := Option.map_eq_some_iff.1 h
  exact ⟨c.packet, rfl⟩

/-! ## A call of `HandleRPSI` -/

/-- The parser is in front of an RPSI block, with room for its SSRCs. -/
def AtRpsiBlock (buf : List UInt8) (u : Parser F) : Prop :=
  u.state = .topLevel ∧ ∃ header, headerAt buf u.ptr = some header ∧ header.packetType = ptPSFB ∧
    header.countOrFormat = 3 ∧ 12 ≤ header.blockSize

/-- In the round from `u` the parser sets what the receiver then reads: it is at an item whose padding leaves
something, or not at a block whose header is taken for an item with whole bytes. -/
def Covered (buf : List UInt8) (left : UInt16) (u : Parser F) : Prop :=
  u.validPacket = true → (u.state = .psfbRpsiItem → PaddingLeaves buf u) ∧ (AtRpsiBlock buf u → left % 8 ≠ 0)

/-- Of a header nothing is filled. -/
theorem readPictureId_header {left : UInt16} : readPictureId left [] = none ↔ left % 8 = 0 := by
  have hmod : left % 8 = 0 ↔ left.toNat % 8 = 0 := by
    rw [← UInt16.toNat_inj, UInt16.toNat_mod]
    rfl
  rw [← Option.not_isSome_iff_eq_none, readPictureId_isSome, List.length_nil, hmod]
  omega

/-- What a round at the top level reports of type `kPsfbRpsi`: the header of such a block. -/
theorem topLevel_reports (hvalid : u.validPacket = true) (hstate : u.state = .topLevel)
    (hround : u.iterate buf parseFrom = (t, true)) :
    (AtRpsiBlock buf u ∧ ∃ sender media, t.packet = some (.psfbRpsi (.header sender media))) ∨
      (¬ AtRpsiBlock buf u ∧ OtherType t) := by
  have hclear : u.clear.state = .topLevel := hstate
  rw [iterate, if_pos hvalid, dispatch, hclear] at hround
  dsimp only at hround
  unfold iterateTopLevel at hround
  cases hh : headerAt buf u.ptr with
  | none =>
    have hno : ¬ AtRpsiBlock buf u := by
      rintro ⟨-, header, hheader, -⟩
      rw [hh] at hheader
      cases hheader
    refine .inr ⟨hno, ?_⟩
    have hh' : headerAt buf u.clear.ptr = none := hh
    rw [hh'] at hround
    split at hround <;>
    · cases hround
      exact otherType_none rfl
  | some header =>
    obtain ⟨-, hle⟩ := blockSize_of_parse hh
    have hfour := four_le_blockSize header
    have hh' : headerAt buf u.clear.ptr = some header := hh
    have hptr : u.clear.ptr = u.ptr := rfl
    rw [if_neg (by omega), hh'] at hround
    dsimp only at hround
    rw [if_neg (by omega)] at hround
    have hlength : ({ u.clear with blockEnd := u.clear.ptr + header.blockSize } : Parser F).length =
        header.blockSize := Nat.add_sub_cancel_left ..
    by_cases hrpsi : header.packetType = ptPSFB ∧ header.countOrFormat = 3 ∧ 12 ≤ header.blockSize
    · obtain ⟨htype, hformat, hroom⟩ := hrpsi
      refine .inl ⟨⟨hstate, header, hh, htype, hformat, hroom⟩, ?_⟩
      rw [topLevelBlock_feedback parseFrom (.inr htype), parseFBCommon, hlength, if_neg (by omega), htype,
        if_neg (by decide), hformat] at hround
      rw [← (Prod.mk.inj hround).1]
      exact ⟨_, _, rfl⟩
    · have hno : ¬ AtRpsiBlock buf u := by
        rintro ⟨-, header', hheader, hrpsi'⟩
        rw [hh] at hheader
        cases hheader
        exact hrpsi hrpsi'
      refine .inr ⟨hno, ?_⟩
      have hother := @topLevelBlock_other buf F parseFrom
        ({ u.clear with blockEnd := u.clear.ptr + header.blockSize } : Parser F) rfl header (by rwa [hlength])
      rwa [hround] at hother

/-- **What a call reads** has been filled, exactly if the round it returns with is covered. -/
theorem handleRPSI_covered {fuel : Nat} {left : UInt16} (hlast : lastRound buf parseFrom fuel s = some u) :
    handleRPSI buf parseFrom fuel left s ≠ .outside ↔ Covered buf left u := by
  obtain ⟨t, ht⟩ : ∃ t, u.iterate buf parseFrom = (t, true) := ⟨_, Prod.ext rfl (lastRound_returns hlast)⟩
  have hcall : callIterate buf parseFrom fuel s = some t := by
    rw [callIterate, hlast, Option.map_some, ht]
  have hnone : OtherType t → handleRPSI buf parseFrom fuel left s ≠ .outside := by
    intro hother hout
    obtain ⟨fields, hpacket, -⟩ := (handleRPSI_outside_iff hcall).1 hout
    exact hother fields hpacket
  by_cases hvalid : u.validPacket = true
  · by_cases htop : u.state = .topLevel
    · have hnot : u.state ≠ .psfbRpsiItem := by rw [htop]; decide
      rcases topLevel_reports hvalid htop ht with ⟨hblock, sender, media, hpacket⟩ | ⟨hno, hother⟩
      · rw [Covered, ne_eq, handleRPSI_outside_iff hcall]
        constructor
        · intro hread _
          refine ⟨fun h => absurd h hnot, fun _ hleft => hread ⟨_, hpacket, readPictureId_header.2 hleft⟩⟩
        · rintro hcovered ⟨fields, hfields, hread⟩
          rw [hpacket] at hfields
          cases hfields
          exact (hcovered hvalid).2 hblock (readPictureId_header.1 hread)
      · exact iff_of_true (hnone hother) fun _ => ⟨fun h => absurd h hnot, fun h => absurd h hno⟩
    · have hno : ¬ AtRpsiBlock buf u := fun h => htop h.1
      have hround : u.clear.dispatch buf parseFrom = (t, true) := by rw [← ht, iterate, if_pos hvalid]
      by_cases hitem : u.state = .psfbRpsiItem
      · have hclear : u.clear.state = .psfbRpsiItem := hitem
        rw [dispatch, hclear] at hround
        obtain ⟨payloadType, bits, native, hpacket, hreads⟩ := parseRPSIItem_reads hround
        have hreads : (readPictureId bits native).isSome = true ↔ PaddingLeaves buf u := hreads
        rw [Covered, ne_eq, handleRPSI_outside_iff hcall]
        constructor
        · intro hread _
          refine ⟨fun _ => hreads.1 ?_, fun h => absurd h hno⟩
          rw [← Option.ne_none_iff_isSome]
          exact fun hbad => hread ⟨_, hpacket, hbad⟩
        · rintro hcovered ⟨fields, hfields, hread⟩
          rw [hpacket] at hfields
          cases hfields
          have hsome := hreads.2 ((hcovered hvalid).1 hitem)
          have hread : readPictureId bits native = none := hread
          rw [hread] at hsome
          cases hsome
      · have hother := @dispatch_other buf F parseFrom u.clear rfl htop hitem
        rw [hround] at hother
        exact iff_of_true (hnone hother) fun _ => ⟨fun h => absurd h hitem, fun h => absurd h hno⟩
  · rw [iterate, if_neg hvalid] at ht
    cases ht
    exact iff_of_true (hnone (otherType_none rfl)) fun h => absurd h hvalid

/-- **Picture ids survive**, all of them; and what `HandleRPSI` reads is filled from the block exactly if the round
its `Iterate` returns with is covered. -/
theorem rpsi_pictureId_iff {F : Type} (parseFrom : List UInt8 → Option F) :
    (∀ (rpsi : Rpsi) (id : UInt64) (maxLength : Nat) (b b' : Buffers),
      (rpsi.withPictureId id).create maxLength b = some b' →
      ∃ pre, b'.packet = pre ++ (rpsi.withPictureId id).block ∧
        ∀ s : Parser F, AtTop s pre.length → ∃ header t u, s.iterate b'.packet parseFrom = (header, true) ∧
          header.packet = some (.psfbRpsi (.header rpsi.senderSsrc rpsi.mediaSsrc)) ∧
          (∀ fuel left, handleRPSI b'.packet parseFrom (fuel + 1) left header = .returned t true (some id)) ∧
          Run b'.packet parseFrom t [] u ∧ AtTop u b'.packet.length) ∧
    (∀ (buf : List UInt8) (fuel : Nat) (left : UInt16) (s u : Parser F), lastRound buf parseFrom fuel s = some u →
      (handleRPSI buf parseFrom fuel left s ≠ .outside ↔ Covered buf left u)) := by
  refine ⟨fun rpsi id maxLength b b' h => ?_, fun buf fuel left s u hlast => handleRPSI_covered hlast⟩
  obtain ⟨pre, hpre⟩ := create_packet h
  refine ⟨pre, hpre, fun s hs => ?_⟩
  have hat := at_suffix pre (rpsi.withPictureId id).block []
  rw [List.append_nil, ← hpre] at hat
  have hle : pre.length ≤ b'.packet.length := by
    rw [hpre, List.length_append]
    exact Nat.le_add_right _ _
  obtain ⟨header, t, u, hround, hpacket, hhandled, hrun, hu⟩ := block_run parseFrom rpsi id hs hle hat
  refine ⟨header, t, u, hround, hpacket, hhandled, hrun, ?_⟩
  rw [hpre, List.length_append]
  exact hu

/-- A block with two bytes, whose padding is `padding`. -/
def twoByteBlock (padding : UInt8) : List UInt8 := [0x83, 206, 0, 3, 0, 0, 0, 1, 0, 0, 0, 2, padding, 5, 1, 2]

/-- The largest id, alone in a packet; and a block of two bytes, when none of them is padding and when both are. -/
theorem rpsi_pictureId_iff_max :
    (∃ b' header t, ((Rpsi.mk 1 2 3 0 [] 0).withPictureId 0xffffffffffffffff).create 100 ⟨[], []⟩ = some b' ∧
      (init b'.packet true : Parser Unit).iterate b'.packet (fun _ => none) = (header, true) ∧
      header.packet = some (.psfbRpsi (.header 1 2)) ∧
      handleRPSI b'.packet (fun _ => none) 1 0 header = .returned t true (some 0xffffffffffffffff)) ∧
    handleRPSI (twoByteBlock 0) (fun _ => none (α := Unit)) 1 0 (steps (twoByteBlock 0) (fun _ => none) true 1).1 ≠
      .outside ∧
    handleRPSI (twoByteBlock 16) (fun _ => none (α := Unit)) 1 0 (steps (twoByteBlock 16) (fun _ => none) true 1).1 =
      .outside := by
  obtain ⟨hsurvive, hcovered⟩ := rpsi_pictureId_iff (fun _ => none (α := Unit))
  refine ⟨?_, ?_, ?_⟩
  · obtain ⟨block, hblock⟩ : ∃ block, ((Rpsi.mk 1 2 3 0 [] 0).withPictureId 0xffffffffffffffff).block = block :=
      ⟨_, rfl⟩
    obtain ⟨pre, hpre, hparse⟩ := hsurvive ⟨1, 2, 3, 0, [], 0⟩ 0xffffffffffffffff 100 ⟨[], []⟩ ⟨block, []⟩
      (hblock ▸ rfl)
    have hempty : pre = [] := by
      rw [hblock] at hpre
      have hlength : block.length = pre.length + block.length :=
        (congrArg List.length hpre).trans (List.length_append ..)
      exact List.length_eq_zero_iff.1 (by omega)
    have hheader : headerAt block 0 = some ⟨3, 206, 20, 0⟩ := hblock ▸ rfl
    obtain ⟨header, t, -, hround, hpacket, hhandled, -⟩ := hparse (init block true) (hempty ▸ init_atTop hheader)
    exact ⟨⟨block, []⟩, header, t, hblock ▸ rfl, hround, hpacket, hhandled 0 0⟩
  · exact (hcovered (twoByteBlock 0) 1 0 _ _ rfl).2 fun _ =>
      ⟨fun _ => .inr (by decide), fun h => absurd h.1 (by decide)⟩
  · by_contra hread
    rcases ((hcovered (twoByteBlock 16) 1 0 _ _ rfl).1 hread rfl).1 rfl with h | h
    · exact absurd h (by decide)
    · exact absurd h (by decide)

/-- A block of which all is padding: the receiver reads the byte before the first. -/
theorem rpsi_pictureId_not : ¬ ∀ (buf : List UInt8) (n fuel : Nat) (left : UInt16),
    Reached buf (fun _ => none (α := Unit)) true n → (steps buf (fun _ => none (α := Unit)) true n).2 = true →
    (∃ fields, (steps buf (fun _ => none (α := Unit)) true n).1.packet = some (.psfbRpsi fields)) →
    handleRPSI buf (fun _ => none (α := Unit)) fuel left (steps buf (fun _ => none) true n).1 ≠ .outside := by
  intro h
  have hreached : Reached (twoByteBlock 16) (fun _ => none (α := Unit)) true 1 := by
    intro m hm hend
    obtain rfl : m = 0 := by omega
    exact Bool.false_ne_true hend.1
  exact h (twoByteBlock 16) 1 1 0 hreached rfl ⟨_, rfl⟩ rfl

/-- Two blocks, the first without an item. -/
def headerTwice : List UInt8 :=
  [0x83, 206, 0, 2, 0, 0, 0, 1, 0, 0, 0, 2, 0x83, 206, 0, 3, 0, 0, 0, 1, 0, 0, 0, 2, 0, 5, 1, 2]

/-- The header of the second block is taken for the item of the first. -/
theorem header_taken {left : UInt16} (hleft : left % 8 = 0) : handleRPSI headerTwice (fun _ => none (α := Unit)) 2 left
    (steps headerTwice (fun _ => none) true 1).1 = .outside := by
  by_contra hread
  have hcovered := (@handleRPSI_covered headerTwice Unit (fun _ => none) _ _ 2 left rfl).1 hread
  exact (hcovered rfl).2 ⟨rfl, ⟨3, 206, 12, 0⟩, rfl, rfl, rfl, by decide⟩ hleft

end WebRtc.Rtcp
