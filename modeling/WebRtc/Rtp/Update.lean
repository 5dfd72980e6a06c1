import WebRtc.Rtp.Extensions

/-!
# Rewriting an extension

The sender computes where an extension stands from the number of contributing sources and the lengths of the
extensions before it. A source takes four bytes and is counted as one: the position is right in packets
without sources only (`exact_iff`).
-/

namespace WebRtc.Rtp

open Bytes

/-! ## Updates -/

/-- A call of one of the `Update…` functions of the sender, with its arguments. -/
inductive Update where
  | transmissionTimeOffset (timeDiffMs : Int)
  | audioLevel (isVoiced : Bool) (dBov : UInt8)
  | absoluteSendTime (nowMs : Int)
  | videoRotation (rotation : VideoRotation)
  | transportSequenceNumber (seq : UInt16)
deriving DecidableEq

namespace Update

def type : Update → RTPExtensionType
  | .transmissionTimeOffset _ => .transmissionTimeOffset
  | .audioLevel _ _ => .audioLevel
  | .absoluteSendTime _ => .absoluteSendTime
  | .videoRotation _ => .videoRotation
  | .transportSequenceNumber _ => .transportSequenceNumber

/-- The value, as it is written. -/
def data : Update → List UInt8
  | .transmissionTimeOffset timeDiffMs => be24 (toU32 (timeDiffMs * 90))
  | .audioLevel isVoiced dBov => [(if isVoiced then 0x80 else 0x00) + (dBov &&& 0x7F)]
  | .absoluteSendTime nowMs => be24 (convertMsTo24Bits nowMs)
  | .videoRotation rotation => [convertVideoRotationToCVOByte rotation]
  | .transportSequenceNumber seq => be16 seq

/-- The packet behind the call. -/
def apply (u : Update) (s : RTPSender) (rtpPacket : List UInt8) (rtpHeader : RTPHeader) : List UInt8 :=
  match u with
  | .transmissionTimeOffset timeDiffMs => s.updateTransmissionTimeOffset rtpPacket rtpHeader timeDiffMs
  | .audioLevel isVoiced dBov => s.updateAudioLevel rtpPacket rtpHeader isVoiced dBov
  | .absoluteSendTime nowMs => s.updateAbsoluteSendTime rtpPacket rtpHeader nowMs
  | .videoRotation rotation => s.updateVideoRotation rtpPacket rtpHeader rotation
  | .transportSequenceNumber seq => s.updateTransportSequenceNumber rtpPacket rtpHeader seq

/-- The header extension with the new value; times have 24 bits. -/
def report (u : Update) (ext : RTPHeaderExtension) : RTPHeaderExtension :=
  match u with
  | .transmissionTimeOffset timeDiffMs =>
    { ext with hasTransmissionTimeOffset := true, transmissionTimeOffset := Int.bmod (timeDiffMs * 90) 16777216 }
  | .audioLevel isVoiced dBov =>
    { ext with hasAudioLevel := true, voiceActivity := isVoiced, audioLevel := dBov &&& 0x7F }
  | .absoluteSendTime nowMs => { ext with hasAbsoluteSendTime := true, absoluteSendTime := convertMsTo24Bits nowMs }
  | .videoRotation rotation =>
    { ext with hasVideoRotation := true, videoRotation := convertVideoRotationToCVOByte rotation }
  | .transportSequenceNumber seq => { ext with hasTransportSequenceNumber := true, transportSequenceNumber := seq }

theorem data_length (u : Update) : u.data.length + 1 = u.type.length := by
  cases u <;> rfl

theorem read24_val (x : UInt32) (data : List UInt8) (h : data = be24 x) :
    (value24 (byteAt data) 0).val = x.toNat % 16777216 := by
  subst h
  show (byte32 x 1).toNat * 65536 + Bytes.read16 (byte32 x 2) (byte32 x 3) = _
  rw [read16_byte32]
  simp only [byte32, UInt8.toNat_ofNat']
  omega

theorem convertMsTo24Bits_lt (ms : Int) : (convertMsTo24Bits ms).toNat < 16777216 := by
  rw [convertMsTo24Bits, UInt32.toNat_ofNat']
  exact Nat.lt_of_le_of_lt (Nat.mod_le _ _) (Nat.mod_lt _ (by decide))

theorem signed24 (x : Int) :
    (if (toU32 x).toNat % 16777216 < 8388608 then (((toU32 x).toNat % 16777216 : Nat) : Int)
      else (((toU32 x).toNat % 16777216 : Nat) : Int) - 16777216) = Int.bmod x 16777216 := by
  have h : (toU32 x).toNat = (x % 4294967296).toNat := by
    rw [toU32, UInt32.toNat_ofNat']
    omega
  rw [h, Int.bmod_def]
  split <;> split <;> omega

/-- **What the parser makes of the value.** -/
theorem setValue_data (u : Update) (ext : RTPHeaderExtension) : setValue u.type u.data ext = u.report ext := by
  cases u with
  | transmissionTimeOffset timeDiffMs =>
    simp only [setValue, type, readExtension, Reads.val_bind, Reads.val_pure, read24_val _ _ rfl, data, report]
    rw [← signed24 (timeDiffMs * 90)]
  | audioLevel isVoiced dBov =>
    have h : ∀ (v : Bool) (b : UInt8), ((if v then 0x80 else 0x00) + (b &&& 0x7F)) &&& 0x7F = b &&& 0x7F ∧
        decide (((if v then 0x80 else 0x00) + (b &&& 0x7F)) &&& 0x80 ≠ 0) = v := by decide +kernel
    obtain ⟨hlevel, hvoice⟩ := h isVoiced dBov
    simp only [setValue, type, readExtension, value, Reads.val_bind, Reads.val_pure, report]
    show RTPHeaderExtension.mk _ _ _ _ _ _ _
      (decide (((if isVoiced then 0x80 else 0x00) + (dBov &&& 0x7F)) &&& 0x80 ≠ 0))
      (((if isVoiced then 0x80 else 0x00) + (dBov &&& 0x7F)) &&& 0x7F) _ _ = _
    rw [hlevel, hvoice]
  | absoluteSendTime nowMs =>
    have hlt := convertMsTo24Bits_lt nowMs
    simp only [setValue, type, readExtension, Reads.val_bind, Reads.val_pure, read24_val _ _ rfl, data, report]
    rw [Nat.mod_eq_of_lt hlt, UInt32.ofNat_toNat]
  | videoRotation rotation => rfl
  | transportSequenceNumber seq =>
    have hseq : UInt16.ofNat (Bytes.read16 (byteAt (be16 seq) 0) (byteAt (be16 seq) (0 + 1))) = seq :=
      (show At (be16 seq) 0 (be16 seq) from List.prefix_rfl).read16
    simp only [setValue, type, readExtension, value, Reads.val_bind, Reads.val_pure, data, hseq, report]

/-- There are two values. -/
theorem two_values {t : RTPExtensionType} (h : t ≠ .none) : ∃ u v : Update, u.type = t ∧ v.type = t ∧
    u.data ≠ v.data := by
  cases t with
  | none => exact absurd rfl h
  | transmissionTimeOffset => exact ⟨.transmissionTimeOffset 0, .transmissionTimeOffset 1, rfl, rfl, by decide⟩
  | audioLevel => exact ⟨.audioLevel false 0, .audioLevel false 1, rfl, rfl, by decide⟩
  | absoluteSendTime => exact ⟨.absoluteSendTime 0, .absoluteSendTime 1000, rfl, rfl, by decide⟩
  | videoRotation => exact ⟨.videoRotation .rotation0, .videoRotation .rotation90, rfl, rfl, by decide⟩
  | transportSequenceNumber => exact ⟨.transportSequenceNumber 0, .transportSequenceNumber 1, rfl, rfl, by decide⟩

end Update

/-! ## Where an extension stands -/

section Position
variable {m : RtpHeaderExtensionMap}

/-- The bytes of the extensions in use before `e`. -/
def lengthBefore (m : RtpHeaderExtensionMap) (e : HeaderExtension) : Nat :=
  ((m.activeEntries.takeWhile fun b => decide (b.type ≠ e.type)).map fun b => b.type.length).sum

/-- Where `e` stands in a packet with `n` contributing sources. -/
def elementPosition (m : RtpHeaderExtensionMap) (e : HeaderExtension) (n : Nat) : Nat :=
    12 + 4 * n + (4 + lengthBefore m e)

/-- Its value is behind the octet with id and length. -/
def dataPosition (m : RtpHeaderExtensionMap) (e : HeaderExtension) (n : Nat) : Nat := elementPosition m e n + 1

theorem lengthUntil_eq {e : HeaderExtension} (hactive : e.active = true) (l : List HeaderExtension)
    (hdistinct : l.Pairwise fun a b => a.type ≠ b.type) (he : e ∈ l) (k : Nat) :
    RtpHeaderExtensionMap.lengthUntil e.type l k =
      some (k + (((l.filter HeaderExtension.active).takeWhile fun b =>
          decide (b.type ≠ e.type)).map fun b => b.type.length).sum) := by
  induction l generalizing k with
  | nil => simp at he
  | cons b l ih =>
    rw [List.pairwise_cons] at hdistinct
    rw [RtpHeaderExtensionMap.lengthUntil]
    rcases List.mem_cons.1 he with rfl | he
    · rw [if_pos rfl, if_pos hactive, List.filter_cons_of_pos hactive, List.takeWhile_cons_of_neg (by simp)]
      rfl
    · have hne := hdistinct.1 e he
      rw [if_neg hne, ih hdistinct.2 he]
      by_cases hb : b.active = true
      · rw [if_pos hb, List.filter_cons_of_pos hb, List.takeWhile_cons_of_pos (by simpa using hne),
          List.map_cons, List.sum_cons,
          Nat.add_assoc]
      · rw [if_neg hb, List.filter_cons_of_neg hb]

theorem getLengthUntilBlockStartInBytes_eq (hm : m.Proper) {e : HeaderExtension} (he : e ∈ m.activeEntries) :
    m.getLengthUntilBlockStartInBytes e.type = some (4 + lengthBefore m e) := by
  have hentry := mem_active he
  have hactive : e.active = true := (List.mem_filter.1 he).2
  rw [RtpHeaderExtensionMap.getLengthUntilBlockStartInBytes, getId_mem hm hentry]
  exact lengthUntil_eq hactive m.entries hm.distinct hentry 4

theorem flatMap_element_congr {values values' : RTPExtensionType → List UInt8} {t : RTPExtensionType}
    (h : ∀ t', t' ≠ t → values' t' = values t') (l : List HeaderExtension) (hl : ∀ b ∈ l, b.type ≠ t) :
    l.flatMap (element values') = l.flatMap (element values) := by
  induction l with
  | nil => rfl
  | cons b l ih =>
    rw [List.flatMap_cons, List.flatMap_cons, ih fun b hb => hl b (List.mem_cons_of_mem _ hb), element, element,
      h b.type (hl b List.mem_cons_self)]

theorem fixedBytes_congr (hm : m.Proper) (a : PacketArgs)
    {values values' : RTPExtensionType → List UInt8} (hv : Sized values)
    (hv' : Sized values') : (a.packet hm hv').fixedBytes = (a.packet hm hv).fixedBytes := by
  have hsome : (blockOf hm hv').isSome = (blockOf hm hv).isSome := by
    unfold blockOf
    by_cases hnone : m.activeEntries = []
    · rw [if_pos hnone, if_pos hnone]
    · rw [if_neg hnone, if_neg hnone, Option.isSome_some, Option.isSome_some]
  have hfirst : (a.packet hm hv').firstByte = (a.packet hm hv).firstByte := by
    show 0x80 ||| flag _ 0x20 ||| flag (blockOf hm hv').isSome 0x10 ||| UInt8.ofNat a.csrcs.length = _
    rw [hsome]
    rfl
  rw [RtpPacket.fixedBytes, RtpPacket.fixedBytes, hfirst]
  rfl

/-- **Around an extension** the packet does not depend on its value. -/
theorem bytes_split (hm : m.Proper) (a : PacketArgs) {values : RTPExtensionType → List UInt8} (hv : Sized values)
    {e : HeaderExtension} (he : e ∈ m.activeEntries) :
    ∃ pre post, pre.length = elementPosition m e a.csrcs.length ∧
      ∀ values' (hv' : Sized values'), (∀ t, t ≠ e.type → values' t = values t) →
        (a.packet hm hv').bytes = pre ++ (RTPSender.elementOctet e.id
            (e.type.length - 2) :: values' e.type) ++ post := by
  obtain ⟨before, after, hsplit, hbefore, hafter⟩ := active_split hm he
  have hne : m.activeEntries ≠ [] := List.ne_nil_of_mem he
  have hlength : lengthBefore m e = (before.flatMap (element values)).length := by
    have hknown : ∀ b ∈ before, b.type ≠ .none := fun b hb => hm.known b (mem_active (by rw [hsplit]; simp [hb]))
    have hpos : ∀ b ∈ before, decide (b.type ≠ e.type) = true := fun b hb => by simpa using hbefore b hb
    rw [flatMap_element_length hv before hknown, lengthBefore, hsplit, List.takeWhile_append_of_pos hpos,
      List.takeWhile_cons_of_neg (by simp), List.append_nil]
  refine ⟨(a.packet hm hv).fixedBytes ++ (be16 0xBEDE ++ be16 (UInt16.ofNat ((blockData m values).length / 4))) ++
    before.flatMap (element values), after.flatMap (element values) ++
    List.replicate (RTPSender.word32Align (elements m values).length -
      (elements m values).length) 0 ++ a.payload, ?_, ?_⟩
  · simp only [List.length_append, be16_length]
    rw [RtpPacket.fixedBytes_length, ← hlength]
    show 12 + a.csrcs.length * 4 + (2 + 2) + lengthBefore m e = _
    rw [elementPosition]
    omega
  · intro values' hv' hsame
    have hblock : (a.packet hm hv').extension = some _ := if_neg hne
    have hlen : (elements m values').length = (elements m values).length := by
      rw [elements_length hm hv, elements_length hm hv']
    have helements : elements m values' = before.flatMap (element values) ++
        (RTPSender.elementOctet e.id (e.type.length - 2) :: values' e.type) ++ after.flatMap (element values) := by
      rw [elements, hsplit, List.flatMap_append, List.flatMap_cons, flatMap_element_congr hsame before hbefore,
        flatMap_element_congr hsame after hafter, element, List.append_assoc]
    have hdata : blockData m values' = before.flatMap (element values) ++
        (RTPSender.elementOctet e.id (e.type.length - 2) :: values' e.type) ++ after.flatMap (element values) ++
        List.replicate (RTPSender.word32Align (elements m values).length - (elements m values).length) 0 := by
      rw [blockData, hlen, helements]
    rw [RtpPacket.bytes, RtpPacket.headerBytes, RtpPacket.extensionBytes, hblock,
      fixedBytes_congr hm a hv hv', Option.map_some,
      Option.getD_some, ExtensionBlock.bytes]
    show _ ++ (be16 0xBEDE ++ be16 (UInt16.ofNat ((blockData m values').length / 4)) ++
      blockData m values') ++ a.payload ++ [] = _
    rw [blockData_length, blockData_length, hlen, hdata]
    simp only [List.append_assoc, List.append_nil]

end Position

/-! ## What an update does -/

section Apply
variable {s : RTPSender} {rtpPacket : List UInt8} {rtpHeader : RTPHeader}

theorem verifyExtension_bounds {type : RTPExtensionType} {n offset : Nat}
    (h : s.verifyExtension type rtpPacket rtpHeader n = some offset) :
    ∃ k, s.rtpHeaderExtensionMap.getLengthUntilBlockStartInBytes type = some k ∧ offset = 12 + rtpHeader.numCSRCs + k ∧
      offset + type.length ≤ rtpPacket.length := by
  unfold RTPSender.verifyExtension at h
  split at h
  · cases h
  · split at h
    · cases h
    · rename_i blockPos hfind
      unfold RTPSender.findHeaderExtensionPosition at hfind
      split at hfind
      · cases hfind
      · rename_i k hk
        dsimp only at hfind
        split at hfind
        · cases hfind
        · rename_i hlen
          split at hfind
          · cases hfind
          · split at h
            · cases h
            · split at h
              · cases h
              · cases hfind
                cases h
                exact ⟨k, hk, rfl, by omega⟩

/-- All but one of them write the value alone. -/
theorem apply_eq (u : Update) (h : u.type ≠ .transportSequenceNumber) : u.apply s rtpPacket rtpHeader =
    s.updateExtension u.type u.type.length rtpPacket rtpHeader u.data := by
  cases u <;> first | rfl | exact absurd rfl h

/-- The bytes behind the place where the sender takes the extension to be stay what they are. -/
theorem apply_frame (u : Update) {i : Nat}
    (hi : ∀ k, s.rtpHeaderExtensionMap.getLengthUntilBlockStartInBytes u.type = some k →
    12 + rtpHeader.numCSRCs + k + u.type.length ≤ i) : byteAt (u.apply s rtpPacket rtpHeader) i =
        byteAt rtpPacket i := by
  have hput : ∀ (n p : Nat) (bytes : List UInt8),
    (∀ offset, s.verifyExtension u.type rtpPacket rtpHeader n = some offset →
      offset ≤ p → p + bytes.length ≤ offset + u.type.length → byteAt (put rtpPacket p bytes) i =
          byteAt rtpPacket i) := by
    intro n p bytes offset hoffset hlo hhi
    obtain ⟨k, hk, rfl, hlen⟩ := verifyExtension_bounds hoffset
    have hle := hi k hk
    exact byteAt_put (by omega) (Or.inr (by omega))
  have hdata := u.data_length
  cases u with
  | transportSequenceNumber seq =>
    unfold Update.apply RTPSender.updateTransportSequenceNumber
    dsimp only
    split
    · rfl
    · rename_i offset hoffset
      refine hput 3 offset _ offset hoffset (Nat.le_refl _) ?_
      show _ ≤ offset + 3
      unfold RTPSender.buildTransportSequenceNumberExtension RTPSender.buildExtension
      split <;> simp
  | transmissionTimeOffset | audioLevel | absoluteSendTime | videoRotation =>
    rw [apply_eq _ (by simp [Update.type]), RTPSender.updateExtension]
    split
    · rfl
    · rename_i offset hoffset
      exact hput _ (offset + 1) _ offset hoffset (Nat.le_succ _) (by omega)

/-- Where the extension is found, its value is written over. -/
theorem apply_found (u : Update) {id : UInt8} (hid : s.rtpHeaderExtensionMap.getId u.type = some id)
    {pre old post : List UInt8}
    (hpacket : rtpPacket = pre ++ (RTPSender.elementOctet id (u.type.length - 2) :: old) ++ post)
    (hold : old.length = u.data.length)
    (hfound : s.verifyExtension u.type rtpPacket rtpHeader u.type.length = some pre.length) :
    u.apply s rtpPacket rtpHeader = pre ++ (RTPSender.elementOctet id (u.type.length - 2) :: u.data) ++ post := by
  have hput : put rtpPacket (pre.length + 1) u.data = pre ++ (RTPSender.elementOctet id
      (u.type.length - 2) :: u.data) ++ post := by
    have hsplit : rtpPacket = (pre ++ [RTPSender.elementOctet id (u.type.length - 2)]) ++ old ++ post := by
      rw [hpacket]
      simp only [List.append_assoc, List.cons_append, List.nil_append]
    have hlen : pre.length + 1 = (pre ++ [RTPSender.elementOctet id (u.type.length - 2)]).length := by
      rw [List.length_append, List.length_singleton]
    rw [hsplit, hlen, put_append _ _ hold]
    simp only [List.append_assoc, List.cons_append, List.nil_append]
  cases u with
  | transportSequenceNumber seq =>
    have hbuild : s.buildTransportSequenceNumberExtension seq = RTPSender.elementOctet id 1 :: be16 seq := by
      have hid' : s.rtpHeaderExtensionMap.getId .transportSequenceNumber = some id := hid
      rw [RTPSender.buildTransportSequenceNumberExtension, RTPSender.buildExtension, hid']
    have hfound' : s.verifyExtension .transportSequenceNumber rtpPacket rtpHeader 3 = some pre.length := hfound
    show s.updateTransportSequenceNumber rtpPacket rtpHeader seq = _
    rw [RTPSender.updateTransportSequenceNumber, hfound', hbuild, hpacket]
    exact put_append pre post (congrArg Nat.succ hold)
  | transmissionTimeOffset | audioLevel | absoluteSendTime | videoRotation =>
    rw [apply_eq _ (by simp [Update.type]), RTPSender.updateExtension, hfound]
    exact hput

end Apply

/-! ## Updates of a created packet -/

/-- Only the bytes of the value at `position` change, and the parser reports the new value and otherwise
what it did before. -/
structure Exact (s : RTPSender) (rtpPacket : List UInt8) (rtpHeader : RTPHeader) (position : Nat)
    (u : Update) : Prop where
  frame : ∃ pre old post, rtpPacket = pre ++ old ++ post ∧ u.apply s rtpPacket rtpHeader = pre ++ u.data ++ post ∧
    pre.length = position ∧ old.length = u.data.length
  reported : ∀ header, ∃ h, (parse (byteAt rtpPacket) rtpPacket.length
    (some s.rtpHeaderExtensionMap) header).val = some (true, h) ∧
    (parse (byteAt (u.apply s rtpPacket rtpHeader)) (u.apply s rtpPacket rtpHeader).length
      (some s.rtpHeaderExtensionMap) header).val =
      some (true, { h with extension := u.report h.extension })

section Created
variable {s : RTPSender} (hm : s.rtpHeaderExtensionMap.Proper) (a : PacketArgs) {values : RTPExtensionType → List UInt8}
  (hv : Sized values) {e : HeaderExtension} (he : e ∈ s.rtpHeaderExtensionMap.activeEntries)
include hm he

theorem headerBytes_of_active : (a.packet hm hv).headerBytes.length =
    12 + 4 * a.csrcs.length + (4 + RTPSender.word32Align (elements s.rtpHeaderExtensionMap values).length) := by
  have hblock : (a.packet hm hv).extension = some _ := if_neg (List.ne_nil_of_mem he)
  rw [headerBytes_length, RtpPacket.extensionBytes_length, hblock, Option.map_some, Option.getD_some, blockData_length]
  show 12 + a.csrcs.length * 4 + _ = _
  omega

/-- The extension lies in the header. -/
theorem element_inside : elementPosition s.rtpHeaderExtensionMap e a.csrcs.length + e.type.length ≤
    (a.packet hm hv).headerBytes.length := by
  obtain ⟨before, after, hsplit, hbefore, -⟩ := active_split hm he
  have hpos : ∀ b ∈ before, decide (b.type ≠ e.type) = true := fun b hb => by simpa using hbefore b hb
  have hsum : lengthBefore s.rtpHeaderExtensionMap e + e.type.length ≤
      (elements s.rtpHeaderExtensionMap values).length := by
    rw [elements_length hm hv, lengthBefore, hsplit, List.takeWhile_append_of_pos hpos,
      List.takeWhile_cons_of_neg (by simp),
      List.append_nil, List.map_append, List.sum_append, List.map_cons, List.sum_cons]
    omega
  have halign := word32Align_spec (elements s.rtpHeaderExtensionMap values).length
  rw [headerBytes_of_active hm a hv he, elementPosition]
  omega

/-- **Without contributing sources** the sender finds the extension. -/
theorem verifyExtension_found (hcsrcs : a.csrcs = []) {rtpHeader : RTPHeader} (hnum : rtpHeader.numCSRCs = 0)
    (hlen : rtpHeader.headerLength = (a.packet hm hv).headerBytes.length) :
    s.verifyExtension e.type (a.packet hm hv).bytes rtpHeader e.type.length =
      some (elementPosition s.rtpHeaderExtensionMap e a.csrcs.length) := by
  have hinside := element_inside hm a hv he
  have hheader := headerBytes_length_le (a.packet hm hv)
  have hposition : 12 + rtpHeader.numCSRCs + (4 + lengthBefore s.rtpHeaderExtensionMap e) =
      elementPosition s.rtpHeaderExtensionMap e a.csrcs.length := by
    rw [elementPosition, hnum, hcsrcs]
    rfl
  have hblock : (a.packet hm hv).extension = some _ := if_neg (List.ne_nil_of_mem he)
  have hat : At (a.packet hm hv).bytes 12 (be16 0xBEDE) := by
    have h := extension_at (a.packet hm hv)
    have hzero : (a.packet hm hv).csrcs.length = 0 := by
      show a.csrcs.length = 0
      rw [hcsrcs, List.length_nil]
    rw [hzero, RtpPacket.extensionBytes, hblock, Option.map_some, Option.getD_some,
      ExtensionBlock.bytes, at_append, at_append] at h
    exact h.1.1
  obtain ⟨hBE, hDE⟩ := at_cons.1 hat
  have hoctet : byteAt (a.packet hm hv).bytes (elementPosition s.rtpHeaderExtensionMap e a.csrcs.length) =
      RTPSender.elementOctet e.id (e.type.length - 2) := by
    obtain ⟨pre, post, hpre, hbytes⟩ := bytes_split hm a hv he
    have h := at_suffix pre (RTPSender.elementOctet e.id (e.type.length - 2) :: values e.type) post
    rw [hbytes values hv fun _ _ => rfl, ← hpre]
    exact (at_cons.1 h).1.byte
  have hfind : s.findHeaderExtensionPosition e.type (a.packet hm hv).bytes rtpHeader =
      some (elementPosition s.rtpHeaderExtensionMap e a.csrcs.length) := by
    rw [RTPSender.findHeaderExtensionPosition, getLengthUntilBlockStartInBytes_eq hm he]
    dsimp only
    rw [hposition, if_neg (by omega), hnum, hBE.byte, hDE.byte, if_neg (by decide)]
  rw [RTPSender.verifyExtension, getId_mem hm (mem_active he), hfind]
  dsimp only
  rw [hnum, hBE.byte, hDE.byte, if_neg (by decide), hoctet, if_neg (by simp)]

/-- **One update** of a packet without contributing sources. -/
theorem exact_of_no_csrcs (hcsrcs : a.csrcs = []) {rtpHeader : RTPHeader} (hnum : rtpHeader.numCSRCs = 0)
    (hlen : rtpHeader.headerLength = (a.packet hm hv).headerBytes.length) (u : Update) (hu : u.type = e.type) :
    Exact s (a.packet hm hv).bytes rtpHeader (dataPosition s.rtpHeaderExtensionMap e a.csrcs.length) u := by
  have hdata := u.data_length
  have hold : (values e.type).length = u.data.length := by
    have h := hv e.type (hm.known e (mem_active he))
    rw [hu] at hdata
    omega
  have hv' : Sized (Function.update values e.type u.data) := by
    intro t ht
    by_cases hte : t = e.type
    · rw [hte, Function.update_self, ← hu]
      exact hdata
    · rw [Function.update_of_ne hte]
      exact hv t ht
  obtain ⟨pre, post, hpre, hbytes⟩ := bytes_split hm a hv he
  have hpacket := hbytes values hv fun _ _ => rfl
  have hupdated := hbytes _ hv' fun t ht => Function.update_of_ne ht u.data values
  rw [Function.update_self] at hupdated
  have happly : u.apply s (a.packet hm hv).bytes rtpHeader = (a.packet hm hv').bytes := by
    have hfound := verifyExtension_found hm a hv he hcsrcs hnum hlen
    have hid := getId_mem hm (mem_active he)
    rw [← hu] at hpacket hid hfound
    rw [hupdated, ← hu]
    refine apply_found u hid hpacket ?_ ?_
    · exact hu ▸ hold
    · rw [hfound, hpre]
  constructor
  · refine ⟨pre ++ [RTPSender.elementOctet e.id (e.type.length - 2)], values e.type, post, ?_, ?_, ?_, hold⟩
    · rw [hpacket]
      simp only [List.append_assoc, List.cons_append, List.nil_append]
    · rw [happly, hupdated]
      simp only [List.append_assoc, List.cons_append, List.nil_append]
    · rw [List.length_append, hpre, List.length_singleton, dataPosition]
  · intro header
    have hsame : (a.packet hm hv').headerBytes.length = (a.packet hm hv).headerBytes.length := by
      rw [headerBytes_of_active hm a hv he, headerBytes_of_active hm a hv' he, elements_length hm hv,
        elements_length hm hv']
    refine ⟨(a.packet hm hv).header header (reported s.rtpHeaderExtensionMap values header.extension.reset), ?_, ?_⟩
    · rw [parse_bytes, parsedExtension_elements hm hv, Option.map_some]
    · have hset := u.setValue_data (reported s.rtpHeaderExtensionMap values header.extension.reset)
      rw [hu] at hset
      rw [happly, parse_bytes, parsedExtension_elements hm hv', Option.map_some, reported_update hm values he, hset]
      simp only [RtpPacket.header, hsame]
      rfl

/-- **With contributing sources** two different values are not both written. -/
theorem not_exact_of_csrcs (hcsrcs : a.csrcs ≠ []) {rtpPacket : List UInt8} {rtpHeader : RTPHeader}
    (hnum : rtpHeader.numCSRCs = a.csrcs.length) :
    ¬ ∀ u : Update, u.type = e.type →
        Exact s rtpPacket rtpHeader (dataPosition s.rtpHeaderExtensionMap e a.csrcs.length) u := by
  intro h
  obtain ⟨u, v, hu, hv, hne⟩ := Update.two_values (hm.known e (mem_active he))
  have hpositive : 0 < a.csrcs.length := List.length_pos_iff.2 hcsrcs
  have hfour := type_length_le e.type
  -- Whatever is written is written before the place of the value.
  have hwritten : ∀ u : Update, u.type = e.type → ∀ i (hi : i < u.data.length),
      byteAt rtpPacket (dataPosition s.rtpHeaderExtensionMap e a.csrcs.length + i) = u.data[i] := by
    intro u hu i hi
    obtain ⟨pre, old, post, -, hupdated, hpre, -⟩ := (h u hu).frame
    have hsame : byteAt (u.apply s rtpPacket rtpHeader) (dataPosition s.rtpHeaderExtensionMap e a.csrcs.length + i) =
        byteAt rtpPacket (dataPosition s.rtpHeaderExtensionMap e a.csrcs.length + i) := by
      refine apply_frame u ?_
      intro k hk
      rw [hu, getLengthUntilBlockStartInBytes_eq hm he] at hk
      cases hk
      rw [hu, hnum, dataPosition, elementPosition]
      omega
    rw [← hsame, hupdated, ← hpre]
    exact (at_suffix pre u.data post).bytes hi
  have hlength : u.data.length = v.data.length := by
    have h1 := u.data_length
    have h2 := v.data_length
    rw [hu] at h1
    rw [hv] at h2
    omega
  apply hne
  apply List.ext_getElem hlength
  intro i h1 h2
  rw [← hwritten u hu i h1, hwritten v hv i h2]

end Created

/-- **The position is right without contributing sources, and only then**: for any extension in use, any
packet whose header the sender has written and whose header has then been parsed. -/
theorem exact_iff {s : RTPSender} (hm : s.rtpHeaderExtensionMap.Proper) (a : PacketArgs) {e : HeaderExtension}
    (he : e ∈ s.rtpHeaderExtensionMap.activeEntries) :
    ∃ header rtpHeader, a.header s = some header ∧
      (parse (byteAt (header ++ a.payload)) (header ++ a.payload).length none .empty).val = some (true, rtpHeader) ∧
      ((∀ u : Update, u.type = e.type →
          Exact s (header ++ a.payload) rtpHeader
              (dataPosition s.rtpHeaderExtensionMap e a.csrcs.length) u) ↔ a.csrcs = []) := by
  have hbytes : (a.packet hm s.values_sized).headerBytes ++ a.payload = (a.packet hm s.values_sized).bytes :=
    (List.append_nil _).symm
  refine ⟨_, (a.packet hm s.values_sized).header .empty RTPHeader.empty.extension.reset, header_eq hm a, ?_, ?_⟩
  · rw [hbytes, parse_bytes, parsedExtension_none, Option.map_some]
  · rw [hbytes]
    constructor
    · intro h
      by_contra hcsrcs
      exact not_exact_of_csrcs hm a he hcsrcs rfl h
    · intro hcsrcs u hu
      refine exact_of_no_csrcs hm a s.values_sized he hcsrcs ?_ rfl u hu
      show a.csrcs.length = 0
      rw [hcsrcs, List.length_nil]

/-- A sender with one extension. -/
def levelSender : RTPSender where
  rtpHeaderExtensionMap := ⟨[⟨1, .audioLevel, true⟩], by simp, by decide⟩
  transmissionTimeOffset := 0
  absoluteSendTime := 0
  rotation := .rotation0
  transportSequenceNumber := 0

theorem levelSender_proper : levelSender.rtpHeaderExtensionMap.Proper := ⟨by simp [levelSender], by decide⟩

/-- A packet with the contributing sources `csrcs`. -/
def levelPacket (csrcs : List UInt32) (h : csrcs.length ≤ 15) : PacketArgs :=
    ⟨111, 3, false, 960, 77, csrcs, [1, 2, 3, 4], h⟩

/-- Without contributing sources every level is written in its place, with one not every level is. -/
theorem exact_iff_level :
    (∃ header rtpHeader, (levelPacket [] (by decide)).header levelSender = some header ∧
      (parse (byteAt (header ++ [1, 2, 3, 4])) (header ++ [1, 2, 3, 4]).length none .empty).val =
        some (true, rtpHeader) ∧
      ∀ u : Update, u.type = .audioLevel → Exact levelSender (header ++ [1, 2, 3, 4]) rtpHeader
        (dataPosition levelSender.rtpHeaderExtensionMap ⟨1, .audioLevel, true⟩ 0) u) ∧
    ∃ header rtpHeader, (levelPacket [9] (by decide)).header levelSender = some header ∧
      (parse (byteAt (header ++ [1, 2, 3, 4])) (header ++ [1, 2, 3, 4]).length none .empty).val =
        some (true, rtpHeader) ∧
      ¬ ∀ u : Update, u.type = .audioLevel → Exact levelSender (header ++ [1, 2, 3, 4]) rtpHeader
        (dataPosition levelSender.rtpHeaderExtensionMap ⟨1, .audioLevel, true⟩ 1) u := by
  obtain ⟨header, rtpHeader, hheader, hparse, hexact⟩ :=
    exact_iff levelSender_proper (levelPacket [] (by decide)) (e := ⟨1, .audioLevel, true⟩) (by decide)
  obtain ⟨header', rtpHeader', hheader', hparse', hexact'⟩ :=
    exact_iff levelSender_proper (levelPacket [9] (by decide)) (e := ⟨1, .audioLevel, true⟩) (by decide)
  refine ⟨⟨header, rtpHeader, hheader, hparse, hexact.2 rfl⟩, header', rtpHeader', hheader', hparse', fun h => ?_⟩
  exact List.cons_ne_nil 9 [] (hexact'.1 h)

/-- With one contributing source the level is not written. -/
theorem level_not_written : ∃ header rtpHeader, (levelPacket [9] (by decide)).header levelSender = some header ∧
    (parse (byteAt (header ++ [1, 2, 3, 4])) (header ++ [1, 2, 3, 4]).length none .empty).val = some (true, rtpHeader) ∧
    dataPosition levelSender.rtpHeaderExtensionMap ⟨1, .audioLevel, true⟩ 1 = 21 ∧
    ¬ Exact levelSender (header ++ [1, 2, 3, 4]) rtpHeader 21 (.audioLevel true 20) := by
  refine ⟨[0x91, 111, 0, 77, 0, 0, 3, 0xC0, 0, 0, 0, 3, 0, 0, 0, 9, 0xBE, 0xDE, 0, 1, 0x10, 0x80, 0, 0],
    ⟨false, 111, 77, 960, 3, 1, 9 :: List.replicate 14 0, 0, 24, 0, .empty⟩, by decide +kernel,
      by decide +kernel, by decide, ?_⟩
  intro h
  obtain ⟨pre, old, post, -, hupdated, hpre, -⟩ := h.frame
  have hbyte : byteAt (Update.apply (.audioLevel true 20) levelSender
      ([0x91, 111, 0, 77, 0, 0, 3, 0xC0, 0, 0, 0, 3, 0, 0, 0, 9, 0xBE, 0xDE, 0, 1, 0x10, 0x80, 0, 0] ++ [1, 2, 3, 4])
      ⟨false, 111, 77, 960, 3, 1, 9 :: List.replicate 14 0, 0, 24, 0, .empty⟩) 21 = 0x80 := by decide +kernel
  have hlevel := (at_suffix pre [0x94] post).byte
  rw [hpre] at hlevel
  rw [hupdated] at hbyte
  exact absurd (hbyte.symm.trans hlevel) (by decide)

end WebRtc.Rtp
