import WebRtc.Rtp.Bounds

/-!
# What the parser forgets

`Parse` writes into a header that the caller may have used before. The frequency of the payload type is the
caller's (`voice_engine/channel.cc:415`, `video_engine/vie_receiver.cc:255`): `Parse` leaves it as it was. It resets
the extensions that may not be present in a packet, all but one: `hasTransportSequenceNumber` and
`transportSequenceNumber` keep what they were (`RTPHeaderExtension.reset`). So what `Parse` fills of the header
depends on the packet alone exactly when the packet carries a transport sequence number (`forgetsParsed_iff`).
-/

namespace WebRtc.Rtp

/-! ## The two fields that are not reset -/

def RTPHeaderExtension.putTransportSequenceNumber (ext : RTPHeaderExtension) (has : Bool) (number : UInt16) :
    RTPHeaderExtension :=
  { ext with hasTransportSequenceNumber := has, transportSequenceNumber := number }

theorem RTPHeaderExtension.reset_eq (ext : RTPHeaderExtension) : ext.reset =
    RTPHeaderExtension.empty.putTransportSequenceNumber ext.hasTransportSequenceNumber ext.transportSequenceNumber :=
      rfl

variable {memory : Nat → UInt8} {m : RtpHeaderExtensionMap} {stop : Nat}

/-- A value that is read leaves the two fields alone, or it is the transport sequence number. -/
theorem readExtension_put (type : RTPExtensionType) (p : Nat) (ext : RTPHeaderExtension)
    (has : Bool) (number : UInt16) :
    (readExtension memory type p (ext.putTransportSequenceNumber has number)).val =
      if type = .transportSequenceNumber then (readExtension memory type p ext).val
      else (readExtension memory type p ext).val.putTransportSequenceNumber has number := by
  cases type <;> rfl

/-- From the element at `p` on the parser gets to a transport sequence number. -/
def CarriesFrom (memory : Nat → UInt8) (m : RtpHeaderExtensionMap) (stop p : Nat) : Prop :=
  ∃ q, ElementAt memory m stop p q ∧ Registered memory m q ∧
    m.getType (elementId memory q) = some .transportSequenceNumber

theorem not_carriesFrom_end {p : Nat} (hp : ¬ p < stop) : ¬ CarriesFrom memory m stop p := by
  rintro ⟨q, hq, -⟩
  exact no_element hp hq

/-- Parsing ends at an element that is neither registered nor unknown. -/
theorem not_carriesFrom_last {p : Nat} (hp : p < stop) (hreg : ¬ Registered memory m p)
    (hunknown : ¬ Unknown memory m p) :
    ¬ CarriesFrom memory m stop p := by
  rintro ⟨q, hq, hq', -⟩
  rcases (elementAt_iff hp).1 hq with rfl | ⟨h | h, -⟩
  · exact hreg hq'
  · exact hreg h
  · exact hunknown h

theorem carriesFrom_next {p : Nat} (hp : p < stop) (hgoes : Registered memory m p ∨ Unknown memory m p) :
    CarriesFrom memory m stop p ↔
      (Registered memory m p ∧ m.getType (elementId memory p) = some .transportSequenceNumber) ∨
        CarriesFrom memory m stop (nextElement memory stop p) := by
  constructor
  · rintro ⟨q, hq, hreg, htype⟩
    rcases (elementAt_iff hp).1 hq with rfl | ⟨-, hrest⟩
    · exact Or.inl ⟨hreg, htype⟩
    · exact Or.inr ⟨q, hrest, hreg, htype⟩
  · rintro (⟨hreg, htype⟩ | ⟨q, hq, hreg, htype⟩)
    · exact ⟨p, .here hp, hreg, htype⟩
    · exact ⟨q, (elementAt_iff hp).2 (Or.inr ⟨hgoes, hq⟩), hreg, htype⟩

/-- **The loop** on a header with other values in the two fields. -/
theorem parseOneByteExtensionHeader_put (fuel p : Nat) (hfuel : stop ≤ p + fuel) (ext : RTPHeaderExtension)
    (has : Bool) (number : UInt16) :
    (CarriesFrom memory m stop p →
      (parseOneByteExtensionHeader memory m stop fuel p (ext.putTransportSequenceNumber has number)).val =
        (parseOneByteExtensionHeader memory m stop fuel p ext).val) ∧
    (¬ CarriesFrom memory m stop p →
      (parseOneByteExtensionHeader memory m stop fuel p (ext.putTransportSequenceNumber has number)).val =
        (parseOneByteExtensionHeader memory m stop fuel p ext).val.map
          (·.putTransportSequenceNumber has number)) := by
  induction fuel generalizing p ext with
  | zero =>
    have hp : ¬ p < stop := Nat.not_lt.2 hfuel
    simp [parseOneByteExtensionHeader, hp, not_carriesFrom_end hp]
  | succ fuel ih =>
    by_cases hp : p < stop
    · have hnext : stop ≤ nextElement memory stop p + fuel := by
        unfold nextElement
        omega
      have hval : (octet memory p).val = memory p := rfl
      have hid : (memory p &&& 0xF0) >>> 4 = elementId memory p := rfl
      have hlen : (memory p &&& 0x0F).toNat = elementLen memory p := rfl
      have hbehind : p + 1 + (elementLen memory p + 1) +
          (parsePaddingBytes memory stop stop (p + 1 + (elementLen memory p + 1)) 0).val.toNat =
        nextElement memory stop p := rfl
      simp only [parseOneByteExtensionHeader, if_pos hp, Reads.val_bind, hval, hid, hlen]
      by_cases h15 : elementId memory p = 15
      · have hend := not_carriesFrom_last hp (fun h : Registered memory m p => h.1 h15)
          (fun h : Unknown memory m p => h.1 h15)
        simp [h15, hend]
      · rw [if_neg h15, if_neg h15]
        cases htype : m.getType (elementId memory p) with
        | none =>
          have hreg : ¬ Registered memory m p := by
            rintro ⟨-, type, h, -⟩
            rw [htype] at h
            cases h
          rw [carriesFrom_next hp (Or.inr ⟨h15, htype⟩)]
          simpa [hreg, hbehind] using ih (nextElement memory stop p) hnext ext
        | some type =>
          by_cases hlenOk : type.len = some (elementLen memory p)
          · have hreg : Registered memory m p := ⟨h15, type, htype, hlenOk⟩
            rw [carriesFrom_next hp (Or.inl hreg)]
            simp only [hlenOk, ne_eq, not_true_eq_false, if_false, Reads.val_bind, readExtension_put]
            by_cases hnumber : type = .transportSequenceNumber
            · -- Both go on with the same header.
              simp [hnumber, htype, hreg]
            · simpa [hnumber, htype, hbehind] using
                ih (nextElement memory stop p) hnext (readExtension memory type (p + 1) ext).val
          · -- A wrong length: parsing ends.
            have hreg : ¬ Registered memory m p := by
              rintro ⟨-, type', h, h'⟩
              rw [htype] at h
              cases h
              exact hlenOk h'
            have hunknown : ¬ Unknown memory m p := by
              rintro ⟨-, h⟩
              rw [htype] at h
              cases h
            simp [hlenOk, not_carriesFrom_last hp hreg hunknown]
    · simp [parseOneByteExtensionHeader, hp, not_carriesFrom_end hp]

/-! ## The packet -/

section Packet
variable (memory : Nat → UInt8) (length : Nat) (ptrExtensionMap : Option RtpHeaderExtensionMap)

/-- The parser gets to a transport sequence number in the extension of the packet. -/
def CarriesTransportSequenceNumber : Prop :=
  ∃ m, ptrExtensionMap = some m ∧ HasExtension memory length ∧ OneByte memory ∧
    CarriesFrom memory m (csrcEnd memory + 4 + xLen memory) (csrcEnd memory + 4)

/-- What a caller looks at: of the contributing sources only those in use. -/
def RTPHeader.used (header : RTPHeader) : RTPHeader :=
  { header with arrOfCSRCs := header.arrOfCSRCs.take header.numCSRCs }

/-- What `Parse` fills, the frequency of the payload type put aside. -/
def RTPHeader.parsed (header : RTPHeader) : RTPHeader := { header.used with payloadTypeFrequency := 0 }

/-- The transport sequence number put aside as well. -/
def RTPHeader.unnumbered (header : RTPHeader) : RTPHeader :=
  { header.parsed with extension := header.extension.putTransportSequenceNumber false 0 }

/-- The parser accepts the packet. -/
def Accepted : Prop := ∃ header h, (parse memory length ptrExtensionMap header).val = some (true, h)

/-- What the header was before makes no difference. -/
def ForgetsPrevious : Prop :=
  ∀ header header', ∃ h h', (parse memory length ptrExtensionMap header).val = some (true, h) ∧
    (parse memory length ptrExtensionMap header').val = some (true, h') ∧ h.used = h'.used

/-- It makes none in what `Parse` fills. -/
def ForgetsParsed : Prop :=
  ∀ header header', ∃ h h', (parse memory length ptrExtensionMap header).val = some (true, h) ∧
    (parse memory length ptrExtensionMap header').val = some (true, h') ∧ h.parsed = h'.parsed

/-- The extension of an accepted packet, when the header had `ext` before the block was looked into. -/
def blockExtension (ext : RTPHeaderExtension) : Option RTPHeaderExtension :=
  if memory 0 &&& 0x10 ≠ 0 ∧ (read16 memory (csrcEnd memory)).val = 0xBEDE then
    match ptrExtensionMap with
    | none => some ext
    | some m => (parseOneByteExtensionHeader memory m (csrcEnd memory + 4 + xLen memory)
        (csrcEnd memory + 4 + xLen memory) (csrcEnd memory + 4) ext).val
  else some ext

end Packet

variable {length : Nat} {ptrExtensionMap : Option RtpHeaderExtensionMap}

theorem parseExtension_val (hx : memory 0 &&& 0x10 ≠ 0)
    (hin : csrcEnd memory + 4 + xLen memory ≤ length) (hdr : RTPHeader) :
    (parseExtension memory length ptrExtensionMap hdr (csrcEnd memory)).val =
      (blockExtension memory ptrExtensionMap hdr.extension).map fun extension => finish length
        { hdr with extension, headerLength := hdr.headerLength + 4 + xLen memory } := by
  have hval : (read16 memory (csrcEnd memory + 2)).val.toNat * 4 = xLen memory := rfl
  have hremain : ¬ length - csrcEnd memory < 4 := by omega
  have hremain' : ¬ length - csrcEnd memory < 4 + xLen memory := by omega
  unfold parseExtension blockExtension
  dsimp only
  rw [if_neg hremain]
  simp only [Reads.val_bind, hval, if_neg hremain', Reads.val_pure, hx, ne_eq, not_false_eq_true, true_and]
  congr 1
  split
  · cases ptrExtensionMap <;> rfl
  · rfl

/-- What the checks of the parser let through. -/
theorem accepted_checks (h : Accepted memory length ptrExtensionMap) : ¬ length < 12 ∧ memory 0 >>> 6 = 2 ∧
    ¬ csrcEnd memory > length ∧ (memory 0 &&& 0x10 ≠ 0 → csrcEnd memory + 4 + xLen memory ≤ length) := by
  obtain ⟨header, h, hparse⟩ := h
  rw [parse_val] at hparse
  split at hparse
  · cases hparse
  split at hparse
  · cases hparse
  split at hparse
  · cases hparse
  rename_i h12 hversion hcsrc
  refine ⟨h12, not_not.1 hversion, hcsrc, fun hx => ?_⟩
  by_contra hin
  obtain ⟨-, -, h', hres⟩ := @parseExtension_short memory length ptrExtensionMap hin (Nat.not_lt.1 hcsrc)
    (fixedHeader memory length header)
  rw [if_pos hx, hres] at hparse
  cases hparse

/-- **What is returned for an accepted packet.** -/
theorem parse_accepted (h : Accepted memory length ptrExtensionMap) : ∃ headerLength, ∀ header,
    (parse memory length ptrExtensionMap header).val =
      (blockExtension memory ptrExtensionMap header.extension.reset).map fun extension =>
        (true, { fixedHeader memory length header with extension, headerLength }) := by
  obtain ⟨h12, hversion, hcsrc, hblock⟩ := accepted_checks h
  obtain ⟨header, h, hparse⟩ := h
  have hval := fun header => @parse_val memory length ptrExtensionMap header
  simp only [if_neg h12, if_neg (not_not.2 hversion), if_neg hcsrc] at hval
  rw [hval] at hparse
  by_cases hx : memory 0 &&& 0x10 ≠ 0
  · rw [if_pos hx, parseExtension_val hx (hblock hx), Option.map_eq_some_iff] at hparse
    obtain ⟨e, -, he⟩ := hparse
    simp only [finish, Prod.mk.injEq, Bool.not_eq_true', decide_eq_false_iff_not] at he
    refine ⟨csrcEnd memory + 4 + xLen memory, fun header => ?_⟩
    rw [hval, if_pos hx, parseExtension_val hx (hblock hx)]
    congr 1
    funext extension
    simp only [finish, Prod.mk.injEq, Bool.not_eq_true', decide_eq_false_iff_not]
    exact ⟨he.1, rfl⟩
  · simp only [if_neg hx, finish, Option.some.injEq, Prod.mk.injEq, Bool.not_eq_true',
      decide_eq_false_iff_not] at hparse
    refine ⟨csrcEnd memory, fun header => ?_⟩
    unfold blockExtension
    rw [hval, if_neg hx, if_neg (fun h => hx h.1)]
    simp only [finish, Option.map_some, Option.some.injEq, Prod.mk.injEq, Bool.not_eq_true', decide_eq_false_iff_not]
    exact ⟨hparse.1, rfl⟩

theorem blockExtension_isSome (ext : RTPHeaderExtension) : (blockExtension memory ptrExtensionMap ext).isSome := by
  unfold blockExtension
  split
  · cases ptrExtensionMap with
    | none => rfl
    | some m => exact (parseOneByteExtensionHeader_log _ _ (Nat.le_add_left _ _) ext).1
  · rfl

theorem readCsrcs_length (n p : Nat) : (readCsrcs memory n p).val.length = n := by
  induction n generalizing p with
  | zero => rfl
  | succ n ih => simpa [readCsrcs] using ih (p + 4)

/-- But for the extension what is filled shows nothing of the header that was there before. -/
theorem parsed_fixedHeader (header header' : RTPHeader) (extension : RTPHeaderExtension) (headerLength : Nat) :
    RTPHeader.parsed { fixedHeader memory length header with extension, headerLength } =
      RTPHeader.parsed { fixedHeader memory length header' with extension, headerLength } := by
  simp [RTPHeader.parsed, RTPHeader.used, fixedHeader, readCsrcs_length]

/-- A block with a transport sequence number overwrites the two fields; no other block looks at them. -/
theorem blockExtension_put (h : Accepted memory length ptrExtensionMap) (ext : RTPHeaderExtension) (has : Bool)
    (number : UInt16) :
    (CarriesTransportSequenceNumber memory length ptrExtensionMap →
      blockExtension memory ptrExtensionMap (ext.putTransportSequenceNumber has number) =
        blockExtension memory ptrExtensionMap ext) ∧
    (¬ CarriesTransportSequenceNumber memory length ptrExtensionMap →
      blockExtension memory ptrExtensionMap (ext.putTransportSequenceNumber has number) =
        (blockExtension memory ptrExtensionMap ext).map (·.putTransportSequenceNumber has number)) := by
  unfold blockExtension
  by_cases hone : memory 0 &&& 0x10 ≠ 0 ∧ (read16 memory (csrcEnd memory)).val = 0xBEDE
  · simp only [if_pos hone]
    obtain ⟨h12, hversion, -, hin⟩ := accepted_checks h
    have hblock : HasExtension memory length := ⟨Nat.not_lt.1 h12, hversion, hone.1, hin hone.1⟩
    cases ptrExtensionMap with
    | none => simp [CarriesTransportSequenceNumber]
    | some m =>
      have hcarries : CarriesTransportSequenceNumber memory length (some m) ↔
          CarriesFrom memory m (csrcEnd memory + 4 + xLen memory) (csrcEnd memory + 4) := by
        constructor
        · rintro ⟨m', hm', -, -, hfrom⟩
          cases hm'
          exact hfrom
        · exact fun hfrom => ⟨m, rfl, hblock, hone.2, hfrom⟩
      rw [hcarries]
      exact parseOneByteExtensionHeader_put _ _ (Nat.le_add_left _ _) ext has number
  · have hno : ¬ CarriesTransportSequenceNumber memory length ptrExtensionMap := by
      rintro ⟨m, -, hblock, hprofile, -⟩
      exact hone ⟨hblock.2.2.1, hprofile⟩
    simp only [if_neg hone]
    simp [hno]

/-- **What is filled depends on the packet alone** exactly when the packet carries a transport sequence number. -/
theorem forgetsParsed_iff (haccepted : Accepted memory length ptrExtensionMap) :
    ForgetsParsed memory length ptrExtensionMap ↔ CarriesTransportSequenceNumber memory length ptrExtensionMap := by
  obtain ⟨headerLength, hparse⟩ := parse_accepted haccepted
  obtain ⟨extension, hextension⟩ := Option.isSome_iff_exists.1
    (@blockExtension_isSome memory ptrExtensionMap .empty)
  have hput := blockExtension_put haccepted .empty
  constructor
  · intro hforgets
    by_contra hcarries
    -- Two headers that differ in what is not reset.
    obtain ⟨h, h', hh, hh', hsame⟩ := hforgets RTPHeader.empty
      { RTPHeader.empty with extension := RTPHeaderExtension.empty.putTransportSequenceNumber true 0 }
    rw [hparse, RTPHeaderExtension.reset_eq, (hput _ _).2 hcarries, hextension] at hh hh'
    cases hh
    cases hh'
    exact absurd (congrArg (fun h => h.extension.hasTransportSequenceNumber) hsame) Bool.false_ne_true
  · intro hcarries header header'
    have hsame : ∀ header : RTPHeader,
        blockExtension memory ptrExtensionMap header.extension.reset = some extension := by
      intro header
      rw [RTPHeaderExtension.reset_eq, (hput _ _).1 hcarries, hextension]
    exact ⟨_, _, by rw [hparse, hsame]; rfl, by rw [hparse, hsame]; rfl, parsed_fixedHeader header header' _ _⟩

/-- With another number in front of it, the block makes the same of everything else. -/
theorem blockExtension_unnumbered (h : Accepted memory length ptrExtensionMap) (ext : RTPHeaderExtension) :
    ∃ e, blockExtension memory ptrExtensionMap ext.reset = some e ∧
      (blockExtension memory ptrExtensionMap .empty).map (·.putTransportSequenceNumber false 0) =
        some (e.putTransportSequenceNumber false 0) := by
  obtain ⟨e, he⟩ := Option.isSome_iff_exists.1 (@blockExtension_isSome memory ptrExtensionMap .empty)
  obtain ⟨hcarried, hleft⟩ := blockExtension_put h .empty ext.hasTransportSequenceNumber ext.transportSequenceNumber
  rw [RTPHeaderExtension.reset_eq]
  by_cases hcarries : CarriesTransportSequenceNumber memory length ptrExtensionMap
  · exact ⟨e, (hcarried hcarries).trans he, by rw [he]; rfl⟩
  · refine ⟨_, by rw [hleft hcarries, he]; rfl, ?_⟩
    rw [he]
    rfl

/-- **An accepted packet decides what is filled**: all but the frequency of the payload type, which stays, and the
transport sequence number where there is none in the packet. -/
theorem parse_forgets (memory : Nat → UInt8) (length : Nat) (ptrExtensionMap : Option RtpHeaderExtensionMap)
    (haccepted : Accepted memory length ptrExtensionMap) (header header' : RTPHeader) :
    ∃ h h', (parse memory length ptrExtensionMap header).val = some (true, h) ∧
      (parse memory length ptrExtensionMap header').val = some (true, h') ∧
      h.payloadTypeFrequency = header.payloadTypeFrequency ∧ h'.payloadTypeFrequency = header'.payloadTypeFrequency ∧
      h.unnumbered = h'.unnumbered ∧
      (CarriesTransportSequenceNumber memory length ptrExtensionMap → h.parsed = h'.parsed) := by
  obtain ⟨headerLength, hparse⟩ := parse_accepted haccepted
  obtain ⟨e, he, hrest⟩ := blockExtension_unnumbered haccepted header.extension
  obtain ⟨e', he', hrest'⟩ := blockExtension_unnumbered haccepted header'.extension
  have hsame : e.putTransportSequenceNumber false 0 = e'.putTransportSequenceNumber false 0 :=
    Option.some.inj (hrest.symm.trans hrest')
  have hh := hparse header
  have hh' := hparse header'
  rw [he] at hh
  rw [he'] at hh'
  refine ⟨_, _, hh, hh', rfl, rfl, ?_, fun hcarries => ?_⟩
  · have hfixed := @parsed_fixedHeader memory length header header' (e.putTransportSequenceNumber false 0) headerLength
    refine Eq.trans ?_ (hfixed.trans ?_)
    · rfl
    · rw [hsame]
      rfl
  · obtain ⟨g, g', hg, hg', hparsed⟩ := (forgetsParsed_iff haccepted).2 hcarries header header'
    rw [hh] at hg
    rw [hh'] at hg'
    cases hg
    cases hg'
    exact hparsed

/-- A packet with the transport sequence number 7 in its extension, and one without extension. -/
def numberedPacket : List UInt8 := [0x90, 0, 0, 1, 0, 0, 0, 0, 0, 0, 0, 1, 0xBE, 0xDE, 0, 1, 0x11, 0, 7, 0]

def plainPacket : List UInt8 := [0x80, 0, 0, 1, 0, 0, 0, 0, 0, 0, 0, 1]

def sequenceNumberMap : RtpHeaderExtensionMap := ⟨[⟨1, .transportSequenceNumber, true⟩], by decide, by decide⟩

theorem numberedPacket_carries :
    CarriesTransportSequenceNumber (Bytes.byteAt numberedPacket) numberedPacket.length (some sequenceNumberMap) :=
  ⟨sequenceNumberMap, rfl, ⟨by decide, by decide, by decide, by decide⟩, rfl, 16, .here (by decide),
    ⟨by decide, .transportSequenceNumber, by decide, by decide⟩, by decide⟩

theorem numberedPacket_parsed :
    (parse (Bytes.byteAt numberedPacket) numberedPacket.length (some sequenceNumberMap) .empty).val = some (true,
      { fixedHeader (Bytes.byteAt numberedPacket) numberedPacket.length .empty with
        extension := RTPHeaderExtension.empty.putTransportSequenceNumber true 7, headerLength := 20 }) := by
  decide

/-- In a packet that carries one, nothing but the frequency is left of a header with the number 9. -/
theorem parse_forgets_numbered : ∃ h h',
    (parse (Bytes.byteAt numberedPacket) numberedPacket.length (some sequenceNumberMap) .empty).val = some (true, h) ∧
    (parse (Bytes.byteAt numberedPacket) numberedPacket.length (some sequenceNumberMap)
      { RTPHeader.empty with
        payloadTypeFrequency := 8000
        extension := RTPHeaderExtension.empty.putTransportSequenceNumber true 9 }).val = some (true, h') ∧
    h'.payloadTypeFrequency = 8000 ∧ h.parsed = h'.parsed := by
  obtain ⟨h, h', hh, hh', -, hfrequency, -, hsame⟩ := parse_forgets (Bytes.byteAt numberedPacket)
    numberedPacket.length (some sequenceNumberMap) ⟨.empty, _, numberedPacket_parsed⟩ .empty
    { RTPHeader.empty with
      payloadTypeFrequency := 8000
      extension := RTPHeaderExtension.empty.putTransportSequenceNumber true 9 }
  exact ⟨h, h', hh, hh', hfrequency, hsame numberedPacket_carries⟩

/-- The frequency is not the packet's. -/
theorem not_forgetsPrevious_frequency :
    ¬ ∀ (memory : Nat → UInt8) (length : Nat) (ptrExtensionMap : Option RtpHeaderExtensionMap),
      Accepted memory length ptrExtensionMap → ForgetsPrevious memory length ptrExtensionMap := by
  intro hall
  have hparsed : ∀ payloadTypeFrequency, (parse (Bytes.byteAt numberedPacket) numberedPacket.length
      (some sequenceNumberMap) { RTPHeader.empty with payloadTypeFrequency }).val = some (true,
        { fixedHeader (Bytes.byteAt numberedPacket) numberedPacket.length .empty with
          payloadTypeFrequency
          extension := RTPHeaderExtension.empty.putTransportSequenceNumber true 7, headerLength := 20 }) := by
    intro payloadTypeFrequency
    rfl
  obtain ⟨h, h', hh, hh', hsame⟩ := hall (Bytes.byteAt numberedPacket) numberedPacket.length (some sequenceNumberMap)
    ⟨.empty, _, numberedPacket_parsed⟩ { RTPHeader.empty with payloadTypeFrequency := 8000 }
    { RTPHeader.empty with payloadTypeFrequency := 90000 }
  rw [hparsed] at hh hh'
  cases hh
  cases hh'
  exact absurd (congrArg RTPHeader.payloadTypeFrequency hsame) (by decide)

/-- A packet without extension still has the number of the packet before. -/
theorem not_forgetsParsed_plain :
    ¬ ForgetsParsed (Bytes.byteAt plainPacket) plainPacket.length (some sequenceNumberMap) := by
  intro hforgets
  have hplain : ∀ header, (parse (Bytes.byteAt plainPacket) plainPacket.length (some sequenceNumberMap) header).val =
      some (true, { fixedHeader (Bytes.byteAt plainPacket) plainPacket.length header with headerLength := 12 }) := by
    intro header
    rfl
  obtain ⟨h, h', hh, hh', hsame⟩ := hforgets .empty
    { RTPHeader.empty with extension := RTPHeaderExtension.empty.putTransportSequenceNumber true 7 }
  rw [hplain] at hh hh'
  cases hh
  cases hh'
  exact absurd (congrArg (fun h => h.extension.hasTransportSequenceNumber) hsame) Bool.false_ne_true

end WebRtc.Rtp
