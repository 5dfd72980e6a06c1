import WebRtc.Vp8.Descriptor

/-!
# What was written is read

The writer and the parser of the VP8 payload descriptor, octet by octet and field by field
(`Carries`), then the extension as a whole and the packet (`parse_written`).
-/

namespace WebRtc.Vp8

open RTPVideoHeaderVP8 Bytes

/-- The values a header may have. -/
structure RTPVideoHeaderVP8.Permitted (hdr : RTPVideoHeaderVP8) : Prop where
  pictureId : hdr.pictureId = -1 ∨ 0 ≤ hdr.pictureId ∧ hdr.pictureId ≤ 0x7FFF
  tl0PicIdx : hdr.tl0PicIdx = -1 ∨ 0 ≤ hdr.tl0PicIdx ∧ hdr.tl0PicIdx ≤ 0xFF
  temporalIdx : hdr.temporalIdx = 0xFF ∨ hdr.temporalIdx ≤ 3
  layerSync : hdr.layerSync = true → hdr.temporalIdx ≠ 0xFF
  keyIdx : hdr.keyIdx = -1 ∨ 0 ≤ hdr.keyIdx ∧ hdr.keyIdx ≤ 0x1F

variable {hdr : RTPVideoHeaderVP8} {bufferLength : Nat}

/-! ## Octets -/

theorem low_bits16 {n : Nat} (hn : n < 65536) : (UInt16.ofNat n &&& 0xFF).toUInt8 = UInt8.ofNat n ∧
    (UInt16.ofNat n &&& 0x7F).toUInt8 = UInt8.ofNat (n % 128) ∧
    ((UInt16.ofNat n >>> 8) &&& 0x7F).toUInt8 = UInt8.ofNat (n / 256 % 128) := by
  have h8 (m : Nat) : m &&& 255 = m % 256 := Nat.and_two_pow_sub_one_eq_mod m 8
  have h7 (m : Nat) : m &&& 127 = m % 128 := Nat.and_two_pow_sub_one_eq_mod m 7
  refine ⟨?_, ?_, ?_⟩ <;> apply UInt8.toNat_inj.1
  · simp [h8]
  · simp [h7]
    omega
  · simp [Nat.mod_eq_of_lt hn, Nat.shiftRight_eq_div_pow, h7]
    omega

theorem bit_xField (i l t k : Bool) :
    let x := 0 ||| bit i 0x80 ||| bit l 0x40 ||| (bit t 0x20 ||| bit k 0x10)
    (x &&& 0x80 ≠ 0 ↔ i = true) ∧ (x &&& 0x40 ≠ 0 ↔ l = true) ∧ (x &&& 0x20 ≠ 0 ↔ t = true) ∧
      (x &&& 0x10 ≠ 0 ↔ k = true) := by
  revert i l t k
  decide

theorem bit_tid (y : Bool) (t k : UInt8) (ht : t ≤ 3) :
    let a := ((t <<< 6) ||| bit y 0x20) ||| (k &&& 0x1F)
    (a >>> 6) &&& 0x03 = t ∧ (a &&& 0x20 ≠ 0 ↔ y = true) ∧ a &&& 0x1F = k &&& 0x1F := by
  have ht : t = 0 ∨ t = 1 ∨ t = 2 ∨ t = 3 := by
    revert t
    decide +kernel
  revert k
  rcases ht with rfl | rfl | rfl | rfl <;> cases y <;> decide +kernel

theorem bit_first (x n s : Bool) (p : UInt8) :
    let a := bit x 0x80 ||| bit n 0x20 ||| bit s 0x10 ||| (p &&& 0x0F)
    (a &&& 0x80 ≠ 0 ↔ x = true) ∧ (a &&& 0x20 ≠ 0 ↔ n = true) ∧ (a &&& 0x10 ≠ 0 ↔ s = true) ∧
        a &&& 0x0F = p &&& 0x0F := by
  cases x <;> cases n <;> cases s <;> revert p <;> decide +kernel

theorem keyIdx_octet {k : Int} (h : 0 ≤ k ∧ k ≤ 0x1F) : ((UInt8.ofInt k &&& 0x1F).toNat : Int) = k := by
  have h5 (m : Nat) : m &&& 31 = m % 32 := Nat.and_two_pow_sub_one_eq_mod m 5
  rw [UInt8.ofInt, UInt8.toNat_and, UInt8.toNat_ofNat', UInt8.toNat_ofNat, h5]
  omega

/-! ## Fields -/

/-- The two forms of a picture id. -/
theorem writePictureID_eq (h : 0 ≤ hdr.pictureId ∧ hdr.pictureId ≤ 0x7FFF) :
    ∃ bytes, bytes.length = hdr.pictureIdLength ∧
      (∀ room, hdr.pictureIdLength ≤ room → writePictureID hdr room = some bytes) ∧
      ∀ vp8 data, parseVP8PictureID vp8 (bytes ++ data) = some ({ vp8 with pictureId := hdr.pictureId }, data) := by
  obtain ⟨n, hn⟩ := Int.eq_ofNat_of_zero_le h.1
  have hlt : n < 0x8000 := by omega
  obtain ⟨hlo, hshort, hhi⟩ := low_bits16 (show n < 65536 by omega)
  have hof : UInt16.ofInt hdr.pictureId = UInt16.ofNat n := by
    rw [hn, UInt16.ofInt]
    apply UInt16.toNat_inj.1
    simp
    omega
  have hlen : hdr.pictureIdLength = if n ≤ 0x7F then 1 else 2 := by
    rw [pictureIdLength, if_neg (by omega), hn]
    norm_cast
  unfold writePictureID
  rw [hof, hlen]
  by_cases hs : n ≤ 0x7F
  · have hc : UInt8.ofNat (n % 128) < 0x80 := by
      simp [UInt8.lt_iff_toNat_lt]
      omega
    have h80 := not_not_intro ((top_clear_iff _).2 hc)
    have h7 := low7_of_lt hc
    refine ⟨[UInt8.ofNat (n % 128)], ?_, ?_, ?_⟩
    · simp [hs]
    · intro room hroom
      simp only [hs, if_true] at hroom ⊢
      simp [Nat.not_lt.2 hroom, hshort]
    · intro vp8 data
      have hval : ((UInt8.ofNat (n % 128)).toNat : Int) = hdr.pictureId := by
        rw [hn, UInt8.toNat_ofNat']
        omega
      simp only [parseVP8PictureID, List.cons_append, List.nil_append, if_neg h80, h7, hval]
  · have hc : UInt8.ofNat (n / 256 % 128) < 0x80 := by
      simp [UInt8.lt_iff_toNat_lt]
      omega
    have h80 := or_top_ne (UInt8.ofNat (n / 256 % 128))
    have h7 := low7_or_top hc
    refine ⟨[0x80 ||| UInt8.ofNat (n / 256 % 128), UInt8.ofNat n], ?_, ?_, ?_⟩
    · simp [hs]
    · intro room hroom
      simp only [hs, if_false] at hroom ⊢
      simp [Nat.not_lt.2 hroom, hlo, hhi]
    · intro vp8 data
      have hval : ((UInt8.ofNat (n / 256 % 128)).toNat : Int) * 256 + ((UInt8.ofNat n).toNat : Int) =
          hdr.pictureId := by
        rw [hn, UInt8.toNat_ofNat', UInt8.toNat_ofNat']
        omega
      simp only [parseVP8PictureID, List.cons_append, List.nil_append, if_pos h80, h7, hval]

/-- A field of the extension: what `write` appends to it, `read` takes from it. -/
def Carries (bufferLength : Nat) (write : Extension → Option Extension)
    (read : RTPVideoHeaderVP8 → List UInt8 → Option (RTPVideoHeaderVP8 × List UInt8))
    (set : RTPVideoHeaderVP8 → RTPVideoHeaderVP8) (fresh : RTPVideoHeaderVP8 → Prop) (mask : UInt8)
    (length : Nat) : Prop :=
  ∃ bytes : List UInt8, bytes.length = length ∧
    (∀ e : Extension, 1 + e.length + length ≤ bufferLength → write e = some (e.add mask bytes)) ∧
    ∀ vp8 data, fresh vp8 → read vp8 (bytes ++ data) = some (set vp8, data)

theorem Extension.add_nothing (e : Extension) : e.add 0 [] = e := by
  simp [Extension.add]

theorem pictureId_carries (hp : hdr.Permitted) :
    Carries bufferLength (fun e => if hdr.pictureIdPresent then writePictureIDFields hdr bufferLength e else some e)
      (fun vp8 data => if hdr.pictureIdPresent = true then parseVP8PictureID vp8 data else some (vp8, data))
      (fun vp8 => { vp8 with pictureId := hdr.pictureId }) (fun vp8 => vp8.pictureId = -1)
      (bit hdr.pictureIdPresent 0x80) hdr.pictureIdLength := by
  unfold Carries
  rcases hp.pictureId with hno | hsome
  · have habsent : hdr.pictureIdPresent = false := by simp [pictureIdPresent, hno]
    rw [habsent]
    refine ⟨[], ?_, ?_, ?_⟩
    · simp [pictureIdLength, hno]
    · intro e _
      exact congrArg some e.add_nothing.symm
    · rintro ⟨⟩ data hfresh
      rw [hno, ← hfresh]
      rfl
  · have hpresent : hdr.pictureIdPresent = true := by
      simp only [pictureIdPresent, ne_eq, decide_eq_true_eq]
      omega
    rw [hpresent]
    obtain ⟨bytes, hlen, hwrite, hread⟩ := writePictureID_eq hsome
    refine ⟨bytes, hlen, ?_, fun vp8 data _ => hread vp8 data⟩
    intro e he
    show writePictureIDFields hdr bufferLength e = _
    rw [writePictureIDFields, hwrite _ (by omega)]
    rfl

theorem tl0PicIdx_carries (hp : hdr.Permitted) :
    Carries bufferLength (fun e => if hdr.tl0PicIdxFieldPresent then
      writeTl0PicIdxFields hdr bufferLength e else some e)
      (fun vp8 data => if hdr.tl0PicIdxFieldPresent = true then parseVP8Tl0PicIdx vp8 data else some (vp8, data))
      (fun vp8 => { vp8 with tl0PicIdx := hdr.tl0PicIdx }) (fun vp8 => vp8.tl0PicIdx = -1)
      (bit hdr.tl0PicIdxFieldPresent 0x40) (if hdr.tl0PicIdxFieldPresent then 1 else 0) := by
  unfold Carries
  rcases hp.tl0PicIdx with hno | hsome
  · have habsent : hdr.tl0PicIdxFieldPresent = false := by simp [tl0PicIdxFieldPresent, hno]
    rw [habsent]
    refine ⟨[], rfl, ?_, ?_⟩
    · intro e _
      exact congrArg some e.add_nothing.symm
    · rintro ⟨⟩ data hfresh
      rw [hno, ← hfresh]
      rfl
  · have hpresent : hdr.tl0PicIdxFieldPresent = true := by
      simp only [tl0PicIdxFieldPresent, ne_eq, decide_eq_true_eq]
      omega
    rw [hpresent]
    refine ⟨[UInt8.ofInt hdr.tl0PicIdx], rfl, ?_, ?_⟩
    · intro e he
      exact if_neg (Nat.not_lt.2 he)
    · intro vp8 data _
      have hval : ((UInt8.ofInt hdr.tl0PicIdx).toNat : Int) = hdr.tl0PicIdx := by
        rw [UInt8.ofInt, UInt8.toNat_ofNat']
        omega
      simp [parseVP8Tl0PicIdx, hval]

/-- One octet for the temporal layer, its sync bit and the key index. -/
theorem tid_carries (hp : hdr.Permitted) :
    Carries bufferLength
      (fun e => if hdr.tidFieldPresent || hdr.keyIdxFieldPresent then
        writeTIDAndKeyIdxFields hdr bufferLength e else some e)
      (fun vp8 data => if hdr.tidFieldPresent = true ∨ hdr.keyIdxFieldPresent = true then
        parseVP8TIDAndKeyIdx hdr.tidFieldPresent hdr.keyIdxFieldPresent vp8 data else some (vp8, data))
      (fun vp8 => { vp8 with temporalIdx := hdr.temporalIdx, layerSync := hdr.layerSync, keyIdx := hdr.keyIdx })
      (fun vp8 => vp8.temporalIdx = 0xFF ∧ vp8.layerSync = false ∧ vp8.keyIdx = -1)
      (bit hdr.tidFieldPresent 0x20 ||| bit hdr.keyIdxFieldPresent 0x10)
      (if hdr.tidFieldPresent || hdr.keyIdxFieldPresent then 1 else 0) := by
  have htid : hdr.tidFieldPresent = true ∧ hdr.temporalIdx ≤ 3 ∨
      hdr.tidFieldPresent = false ∧ hdr.temporalIdx = 0xFF ∧ hdr.layerSync = false := by
    rcases hp.temporalIdx with hno | hsome
    · exact Or.inr ⟨by simp [tidFieldPresent, hno], hno, by
        by_contra hs
        exact hp.layerSync (by simpa using hs) hno⟩
    · refine Or.inl ⟨?_, hsome⟩
      simp only [tidFieldPresent, ne_eq, decide_eq_true_eq]
      rintro heq
      rw [heq] at hsome
      exact absurd hsome (by decide)
  have hkey : hdr.keyIdxFieldPresent = true ∧ 0 ≤ hdr.keyIdx ∧ hdr.keyIdx ≤ 0x1F ∨
      hdr.keyIdxFieldPresent = false ∧ hdr.keyIdx = -1 := by
    rcases hp.keyIdx with hno | hsome
    · exact Or.inr ⟨by simp [keyIdxFieldPresent, hno], hno⟩
    · refine Or.inl ⟨?_, hsome⟩
      simp only [keyIdxFieldPresent, ne_eq, decide_eq_true_eq]
      omega
  unfold Carries
  rcases htid with ⟨hT, h3⟩ | ⟨hT, hnoT, hnoY⟩
  · -- The octet is there for the temporal layer.
    rw [hT, Bool.true_or]
    refine ⟨[(hdr.temporalIdx <<< 6 ||| bit hdr.layerSync 0x20) |||
      ((if hdr.keyIdxFieldPresent then UInt8.ofInt hdr.keyIdx else 0) &&& 0x1F)], rfl, ?_, ?_⟩
    · intro e he
      have hroom : ¬ bufferLength < 1 + e.length + 1 := Nat.not_lt.2 he
      cases hK : hdr.keyIdxFieldPresent <;> simp [writeTIDAndKeyIdxFields, hroom, hT, hK]
    · intro vp8 data hfresh
      obtain ⟨h6, hsync, hidx⟩ := bit_tid hdr.layerSync hdr.temporalIdx
        (if hdr.keyIdxFieldPresent then UInt8.ofInt hdr.keyIdx else 0) h3
      rcases hkey with ⟨hK, hrange⟩ | ⟨hK, hnoK⟩
      · rw [hK, if_pos rfl] at h6 hsync hidx ⊢
        simp only [true_or, if_true, parseVP8TIDAndKeyIdx, List.cons_append, List.nil_append, h6,
          hsync, hidx, keyIdx_octet hrange,
          Bool.decide_eq_true]
      · rw [hK, if_neg Bool.false_ne_true] at h6 hsync hidx ⊢
        simp only [true_or, if_true, parseVP8TIDAndKeyIdx, List.cons_append, List.nil_append, h6, hsync,
          Bool.decide_eq_true, Bool.false_eq_true, if_false, hnoK, ← hfresh.2.2]
  · rcases hkey with ⟨hK, hrange⟩ | ⟨hK, hnoK⟩
    · -- It is there for the key index alone.
      rw [hT, hK]
      refine ⟨[UInt8.ofInt hdr.keyIdx &&& 0x1F], rfl, ?_, ?_⟩
      · intro e he
        have hroom : ¬ bufferLength < 1 + e.length + 1 := Nat.not_lt.2 he
        simp [writeTIDAndKeyIdxFields, hroom, hT, hK]
      · intro vp8 data hfresh
        cases vp8
        simp only at hfresh
        obtain ⟨rfl, rfl, rfl⟩ := hfresh
        simp only [or_true, if_true, parseVP8TIDAndKeyIdx, List.cons_append, List.nil_append, Bool.false_eq_true,
          if_false, UInt8.and_assoc, UInt8.and_self, keyIdx_octet hrange, hnoT, hnoY]
    · rw [hT, hK]
      refine ⟨[], rfl, ?_, ?_⟩
      · intro e _
        exact congrArg some e.add_nothing.symm
      · intro vp8 data hfresh
        cases vp8
        simp only at hfresh
        obtain ⟨rfl, rfl, rfl⟩ := hfresh
        simp [hnoT, hnoY, hnoK]

/-! ## The packet -/

theorem pictureIdLength_pos : 0 < hdr.pictureIdLength ↔ hdr.pictureIdPresent = true := by
  unfold pictureIdLength pictureIdPresent
  by_cases h : hdr.pictureId = -1
  · simp [h]
  · by_cases h' : hdr.pictureId ≤ 0x7F <;> simp [h, h']

/-- The length as it is computed and as it is written. -/
theorem extraLength_eq : hdr.payloadDescriptorExtraLength = if hdr.xFieldPresent then
    1 + hdr.pictureIdLength + (if hdr.tl0PicIdxFieldPresent then 1 else 0) +
      (if hdr.tidFieldPresent || hdr.keyIdxFieldPresent then 1 else 0) else 0 := by
  have hpos := @pictureIdLength_pos hdr
  unfold payloadDescriptorExtraLength xFieldPresent
  generalize hdr.pictureIdLength = n at hpos ⊢
  cases hI : hdr.pictureIdPresent
  · have hn : n = 0 := by
      rw [hI] at hpos
      simpa using hpos
    subst hn
    cases hdr.tl0PicIdxFieldPresent <;> cases hdr.tidFieldPresent <;> cases hdr.keyIdxFieldPresent <;> rfl
  · have hn : 0 < n := hpos.2 hI
    cases hdr.tl0PicIdxFieldPresent <;> cases hdr.tidFieldPresent <;>
      cases hdr.keyIdxFieldPresent <;> simp [hn] <;> omega

/-- The extension as a whole. -/
theorem extension_carries (hp : hdr.Permitted) (hx : hdr.xFieldPresent = true)
    (hroom : hdr.descriptorLength ≤ bufferLength) :
    ∃ extension : List UInt8, extension.length = hdr.payloadDescriptorExtraLength ∧
      writeExtensionFields hdr bufferLength = some extension ∧
      ∀ (a : UInt8) (data : List UInt8), parseVP8Extension (fromFirstOctet a) (extension ++ data) =
        some ({ hdr with nonReference := (fromFirstOctet a).nonReference, partitionId := (fromFirstOctet a).partitionId,
                         beginningOfPartition := (fromFirstOctet a).beginningOfPartition }, data) := by
  have hlen := @extraLength_eq hdr
  rw [hx, if_pos rfl] at hlen
  unfold descriptorLength at hroom
  obtain ⟨pic, hpicLen, hpicW, hpicR⟩ := @pictureId_carries hdr bufferLength hp
  obtain ⟨tl0, htl0Len, htl0W, htl0R⟩ := @tl0PicIdx_carries hdr bufferLength hp
  obtain ⟨tid, htidLen, htidW, htidR⟩ := @tid_carries hdr bufferLength hp
  obtain ⟨hI, hL, hT, hK⟩ := bit_xField hdr.pictureIdPresent hdr.tl0PicIdxFieldPresent hdr.tidFieldPresent
    hdr.keyIdxFieldPresent
  generalize hxf : (0 ||| bit hdr.pictureIdPresent 0x80 ||| bit hdr.tl0PicIdxFieldPresent 0x40 |||
    (bit hdr.tidFieldPresent 0x20 ||| bit hdr.keyIdxFieldPresent 0x10)) = x at hI hL hT hK
  refine ⟨x :: (pic ++ tl0 ++ tid), ?_, ?_, ?_⟩
  · simp only [List.length_cons, List.length_append, hpicLen, htl0Len, htidLen]
    omega
  · have h1 := hpicW ⟨0, []⟩ (by simp only [Extension.length, List.length_nil]; omega)
    have h2 := htl0W (Extension.add ⟨0, []⟩ (bit hdr.pictureIdPresent 0x80) pic)
      (by simp only [Extension.length, Extension.add, List.nil_append]; omega)
    have h3 := htidW (Extension.add (Extension.add ⟨0, []⟩ (bit hdr.pictureIdPresent 0x80) pic)
      (bit hdr.tl0PicIdxFieldPresent 0x40) tl0)
      (by simp only [Extension.length, Extension.add, List.nil_append, List.length_append]; omega)
    dsimp only at h1 h2 h3
    unfold writeExtensionFields
    simp only [hx, if_true, h1, h2, h3, Option.bind_eq_bind, Option.bind_some]
    simp only [Extension.add, hxf, List.nil_append]
  · intro a data
    have h1 := hpicR (fromFirstOctet a) (tl0 ++ (tid ++ data)) rfl
    have h2 := htl0R { fromFirstOctet a with pictureId := hdr.pictureId } (tid ++ data) rfl
    have h3 := htidR { fromFirstOctet a with pictureId := hdr.pictureId, tl0PicIdx := hdr.tl0PicIdx } data
      ⟨rfl, rfl, rfl⟩
    dsimp only at h1 h2 h3
    simp only [parseVP8Extension, List.cons_append, List.append_assoc, hI, hL, hT, hK, Bool.decide_eq_true, h1, h2, h3,
      Option.bind_eq_bind, Option.bind_some]

/-- The header with what only the packet knows. -/
def headerOf (hdr : RTPVideoHeaderVP8) (packetInfo : InfoStruct) : RTPVideoHeaderVP8 :=
  { hdr with partitionId := packetInfo.firstPartitionIx % 16, beginningOfPartition := packetInfo.firstFragment }

/-- What the receiver makes of a packet with this payload. -/
def received (hdr : RTPVideoHeaderVP8) (packetInfo : InfoStruct) (payload : List UInt8) : Option ParsedPayload :=
  if (headerOf hdr packetInfo).partitionId > 8 then none else parsePayload (headerOf hdr packetInfo) payload

theorem xField_absent (hx : hdr.xFieldPresent = false) :
    hdr.pictureId = -1 ∧ hdr.tl0PicIdx = -1 ∧ hdr.temporalIdx = 0xFF ∧ hdr.keyIdx = -1 := by
  simp only [xFieldPresent, tidFieldPresent, tl0PicIdxFieldPresent, pictureIdPresent,
    keyIdxFieldPresent, Bool.or_eq_false_iff,
    decide_eq_false_iff_not, not_not] at hx
  exact ⟨hx.1.2, hx.1.1.2, hx.1.1.1, hx.2⟩

/-- **One packet.** It has the length that was set aside for it, and it is read as it was written. -/
theorem parse_written (hp : hdr.Permitted) (hroom : hdr.descriptorLength ≤ bufferLength) (payloadData : List UInt8)
    (info : InfoStruct) (hne : Cut.slice payloadData info.payloadStartPos info.size ≠ []) :
    ∃ descriptor : List UInt8, descriptor.length = hdr.descriptorLength ∧
      writeHeaderAndPayload hdr bufferLength payloadData info =
        some (descriptor ++ Cut.slice payloadData info.payloadStartPos info.size) ∧
      parse (descriptor ++ Cut.slice payloadData info.payloadStartPos info.size) =
        received hdr info (Cut.slice payloadData info.payloadStartPos info.size) := by
  generalize hpl : Cut.slice payloadData info.payloadStartPos info.size = payload at hne ⊢
  obtain ⟨hX, hN, hS, hP⟩ := bit_first hdr.xFieldPresent hdr.nonReference info.firstFragment
    (UInt8.ofNat info.firstPartitionIx)
  unfold writeHeaderAndPayload
  dsimp only
  rw [hpl]
  generalize hfirst : (bit hdr.xFieldPresent 0x80 ||| bit hdr.nonReference 0x20 ||| bit info.firstFragment 0x10 |||
    (UInt8.ofNat info.firstPartitionIx &&& 0x0F)) = a at hX hN hS hP
  have hpart : (a &&& 0x0F).toNat = info.firstPartitionIx % 16 := by
    have h4 (m : Nat) : m &&& 15 = m % 16 := Nat.and_two_pow_sub_one_eq_mod m 4
    rw [hP, UInt8.toNat_and, UInt8.toNat_ofNat', UInt8.toNat_ofNat, h4]
    omega
  have hoctet : fromFirstOctet a = ⟨hdr.nonReference, -1, -1, 0xFF, false, -1,
      info.firstPartitionIx % 16, info.firstFragment⟩ := by
    simp only [fromFirstOctet, hN, hS, hpart, Bool.decide_eq_true]
  cases hx : hdr.xFieldPresent with
  | false =>
    obtain ⟨h1, h2, h3, h4⟩ := xField_absent hx
    have hsync : hdr.layerSync = false := by
      by_contra hs
      exact hp.layerSync (by simpa using hs) h3
    have hhdr : fromFirstOctet a = headerOf hdr info := by
      rw [hoctet, headerOf, h1, h2, h3, h4, hsync]
    rw [hx] at hX
    refine ⟨[a], ?_, ?_, ?_⟩
    · simp [descriptorLength, extraLength_eq, hx]
    · simp [writeExtensionFields, hx]
    · simp [parse, hX, hhdr, received, hne]
  | true =>
    obtain ⟨extension, hlen, hwrite, hread⟩ := extension_carries hp hx hroom
    have hread := hread a payload
    rw [hoctet] at hread
    rw [hx] at hX
    refine ⟨a :: extension, ?_, ?_, ?_⟩
    · simp [descriptorLength, hlen]
      omega
    · rw [hwrite]
      rfl
    · have hall : extension ++ payload ≠ [] := by simp [hne]
      simp only [List.cons_append, parse, hX, if_true, if_neg hall, hoctet, hread,
        Option.bind_eq_bind, Option.bind_some,
        if_neg hne]
      rfl

/-! ## Any header at all -/

/-- A field is written when there is room for it. -/
def Takes (bufferLength : Nat) (present : Bool) (write : Extension → Option Extension) (length : Nat) : Prop :=
  ∀ e : Extension, 1 + e.length + length ≤ bufferLength →
    ∃ e', (if present = true then write e else some e) = some e' ∧ e'.length = e.length + length

theorem pictureId_takes :
    Takes bufferLength hdr.pictureIdPresent (writePictureIDFields hdr bufferLength) hdr.pictureIdLength := by
  intro e hroom
  cases hI : hdr.pictureIdPresent with
  | false =>
    have h0 : hdr.pictureIdLength = 0 := by
      by_contra hne
      have hpresent := pictureIdLength_pos.1 (Nat.pos_of_ne_zero hne)
      rw [hI] at hpresent
      exact Bool.false_ne_true hpresent
    exact ⟨e, rfl, by rw [h0]; rfl⟩
  | true =>
    have hfits : ¬ hdr.pictureIdLength > bufferLength - 1 - e.length := by omega
    have hpos := pictureIdLength_pos.2 hI
    have hle : hdr.pictureIdLength ≤ 2 := by
      unfold pictureIdLength
      split
      · omega
      · split <;> omega
    rw [if_pos rfl, writePictureIDFields, writePictureID, if_neg hfits]
    by_cases h2 : hdr.pictureIdLength = 2
    · rw [if_pos h2]
      exact ⟨_, rfl, by simp [Extension.length, Extension.add, h2]; omega⟩
    · have h1 : hdr.pictureIdLength = 1 := by omega
      rw [if_neg h2, if_pos h1]
      exact ⟨_, rfl, by simp [Extension.length, Extension.add, h1]; omega⟩

theorem tl0PicIdx_takes : Takes bufferLength hdr.tl0PicIdxFieldPresent (writeTl0PicIdxFields hdr bufferLength)
    (if hdr.tl0PicIdxFieldPresent then 1 else 0) := by
  intro e hroom
  cases hL : hdr.tl0PicIdxFieldPresent with
  | false => exact ⟨e, rfl, rfl⟩
  | true =>
    rw [hL, if_pos rfl] at hroom
    rw [if_pos rfl, writeTl0PicIdxFields, if_neg (by omega)]
    exact ⟨_, rfl, by simp [Extension.length, Extension.add]; omega⟩

theorem tid_takes : Takes bufferLength (hdr.tidFieldPresent || hdr.keyIdxFieldPresent)
    (writeTIDAndKeyIdxFields hdr bufferLength)
    (if hdr.tidFieldPresent || hdr.keyIdxFieldPresent then 1 else 0) := by
  intro e hroom
  cases hT : hdr.tidFieldPresent || hdr.keyIdxFieldPresent with
  | false => exact ⟨e, rfl, rfl⟩
  | true =>
    rw [hT, if_pos rfl] at hroom
    rw [if_pos rfl, writeTIDAndKeyIdxFields, if_neg (by omega)]
    exact ⟨_, rfl, by simp [Extension.length, Extension.add]; omega⟩

theorem writeExtensionFields_length (hroom : hdr.descriptorLength ≤ bufferLength) :
    ∃ extension : List UInt8, writeExtensionFields hdr bufferLength = some extension ∧
      extension.length = hdr.payloadDescriptorExtraLength := by
  rw [descriptorLength, extraLength_eq] at hroom
  rw [extraLength_eq]
  unfold writeExtensionFields
  cases hx : hdr.xFieldPresent with
  | false => exact ⟨[], rfl, rfl⟩
  | true =>
    rw [hx, if_pos rfl] at hroom
    have hnil : Extension.length ⟨0, []⟩ = 1 := rfl
    obtain ⟨e1, he1, hl1⟩ := @pictureId_takes hdr bufferLength ⟨0, []⟩ (by omega)
    obtain ⟨e2, he2, hl2⟩ := @tl0PicIdx_takes hdr bufferLength e1 (by omega)
    obtain ⟨e3, he3, hl3⟩ := @tid_takes hdr bufferLength e2 (by omega)
    refine ⟨e3.xField :: e3.fields, ?_, ?_⟩
    · simp only [if_true, he1, he2, he3, Option.bind_eq_bind, Option.bind_some]
    · have hlen : (e3.xField :: e3.fields).length = e3.length := by
        rw [List.length_cons, Extension.length, Nat.add_comm]
      rw [if_pos rfl]
      omega

/-- Of every packet the S bit and the partition can be read. -/
theorem writeHeaderAndPayload_eq (hroom : hdr.descriptorLength ≤ bufferLength)
    (payloadData : List UInt8) (info : InfoStruct) :
    ∃ descriptor : List UInt8, descriptor.length = hdr.descriptorLength ∧
      writeHeaderAndPayload hdr bufferLength payloadData info =
        some (descriptor ++ Cut.slice payloadData info.payloadStartPos info.size) ∧
      (Bytes.byteAt descriptor 0 &&& 0x10 ≠ 0 ↔ info.firstFragment = true) ∧
      (Bytes.byteAt descriptor 0 &&& 0x0F).toNat = info.firstPartitionIx % 16 := by
  obtain ⟨extension, hwrite, hlen⟩ := writeExtensionFields_length hroom
  obtain ⟨-, -, hS, hP⟩ := bit_first hdr.xFieldPresent hdr.nonReference info.firstFragment
    (UInt8.ofNat info.firstPartitionIx)
  refine ⟨_ :: extension, ?_, by rw [writeHeaderAndPayload, hwrite]; rfl, hS, ?_⟩
  · rw [List.length_cons, hlen, descriptorLength, Nat.add_comm]
  · have h4 (m : Nat) : m &&& 15 = m % 16 := Nat.and_two_pow_sub_one_eq_mod m 4
    rw [Bytes.byteAt, List.getD_cons_zero, hP, UInt8.toNat_and, UInt8.toNat_ofNat', UInt8.toNat_ofNat, h4]
    omega

end WebRtc.Vp8
