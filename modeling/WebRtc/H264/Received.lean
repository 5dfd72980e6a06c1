import WebRtc.H264.Packetizer

/-!
# What is packetized is received

`Carries` says which packets carry a list of NAL units: a unit that fits is a packet, or one of the units of a
STAP-A packet, and one that does not fit is cut into the fragments of FU-A packets. `GeneratePackets` and
`NextPacket` make such packets (`packetize_carries`), and from such packets a receiver gets the units
(`Carries.depacketize`).
-/

namespace WebRtc.H264

open CInt Bytes Vp8

/-! ## Units and packets -/

/-- A unit that is not itself a packet of several units or a fragment. -/
structure Nalu where
  header : UInt8
  body : List UInt8
  hasBody : body ≠ []
  notStapA : header &&& kTypeMask ≠ kStapA
  notFuA : header &&& kTypeMask ≠ kFuA

namespace Nalu

def bytes (n : Nalu) : List UInt8 := n.header :: n.body

@[simp] theorem bytes_length (n : Nalu) : n.bytes.length = n.body.length + 1 := rfl

theorem body_pos (n : Nalu) : 0 < n.body.length := List.length_pos_iff.2 n.hasBody

end Nalu

/-- With the length of the unit before it. -/
def stapUnit (n : Nalu) : List UInt8 := be16 (UInt16.ofNat n.bytes.length) ++ n.bytes

def stapPacket (n : Nalu) (ns : List Nalu) : List UInt8 :=
  ((n.header &&& (kFBit ||| kNriMask)) ||| kStapA) :: (n :: ns).flatMap stapUnit

def fuPacket (header : UInt8) (first last : Bool) (chunk : List UInt8) : List UInt8 :=
  ((header &&& (kFBit ||| kNriMask)) ||| kFuA) ::
    ((if first then kSBit else 0) ||| (if last then kEBit else 0) ||| (header &&& kTypeMask)) :: chunk

/-- The packets of a unit that is cut: the last one ends it, and the first one starts it if `first`. -/
def fuPackets (header : UInt8) : Bool → List (List UInt8) → List (List UInt8)
  | _, [] => []
  | first, [chunk] => [fuPacket header first true chunk]
  | first, chunk :: next :: chunks => fuPacket header first false chunk :: fuPackets header false (next :: chunks)

inductive Carries (maxPayloadLen : Nat) : List Nalu → List (List UInt8) → Prop
  | nil : Carries maxPayloadLen [] []
  | single {n : Nalu} {ns : List Nalu} {packets : List (List UInt8)} (hfits : n.bytes.length ≤ maxPayloadLen)
      (h : Carries maxPayloadLen ns packets) : Carries maxPayloadLen (n :: ns) (n.bytes :: packets)
  | aggregate {n m : Nalu} {group ns : List Nalu} {packets : List (List UInt8)}
      (hfits : (stapPacket n (m :: group)).length ≤ maxPayloadLen) (h : Carries maxPayloadLen ns packets) :
      Carries maxPayloadLen (n :: m :: group ++ ns) (stapPacket n (m :: group) :: packets)
  | fragments {n : Nalu} {ns : List Nalu} {chunks packets : List (List UInt8)} (hcut : 2 ≤ chunks.length)
      (hbody : chunks.flatten = n.body) (hfits : ∀ c ∈ chunks, c ≠ [] ∧ c.length + kFuAHeaderSize ≤ maxPayloadLen)
      (h : Carries maxPayloadLen ns packets) :
      Carries maxPayloadLen (n :: ns) (fuPackets n.header true chunks ++ packets)

/-! ## The receiver -/

/-- The units of a STAP-A packet. -/
def stapUnits : List UInt8 → Option (List (List UInt8))
  | [] => some []
  | [_] => none
  | a :: b :: rest =>
    if read16 a b > rest.length then none
    else (stapUnits (rest.drop (read16 a b))).map (rest.take (read16 a b) :: ·)
termination_by bytes => bytes.length
decreasing_by
  simp only [List.length_drop, List.length_cons]
  omega

def fuEnds (packet : List UInt8) : Bool := decide (byteAt packet 1 &&& kEBit ≠ 0)

variable (sps : List UInt8 → Option (UInt16 × UInt16))

/-- Packets in order, after the fragments of a unit that has not ended. None if a unit is not complete. -/
def depacketize : Option (List UInt8) → List (List UInt8) → Option (List (List UInt8))
  | none, [] => some []
  | some _, [] => none
  | partly, packet :: packets => do
    let parsed ← parse sps packet
    match parsed.packetizationType, partly with
    | .singleNalu, none => (depacketize none packets).map (parsed.payload :: ·)
    | .stapA, none => do
      let units ← stapUnits (parsed.payload.drop kNalHeaderSize)
      (depacketize none packets).map (units ++ ·)
    | .fuA, _ =>
      if parsed.isFirstPacket = partly.isNone then
        let unit := partly.getD [] ++ parsed.payload
        if fuEnds packet then (depacketize none packets).map (unit :: ·) else depacketize (some unit) packets
      else none
    | _, some _ => none

/-! ## Parsing what is sent -/

section
variable {sps}

theorem indicator_type (h : UInt8) : ((h &&& (kFBit ||| kNriMask)) ||| kFuA) &&& kTypeMask = kFuA ∧
    ((h &&& (kFBit ||| kNriMask)) ||| kStapA) &&& kTypeMask = kStapA := by
  revert h
  decide +kernel

/-- The bits of a FU header, and the header of the unit from both headers. -/
theorem fu_header (h : UInt8) (first last : Bool) :
    decide (((if first then kSBit else 0) ||| (if last then kEBit else 0) |||
      (h &&& kTypeMask)) &&& kSBit > 0) = first ∧
    decide (((if first then kSBit else 0) ||| (if last then kEBit else 0) ||| (h &&& kTypeMask)) &&& kEBit ≠ 0) = last ∧
    ((h &&& (kFBit ||| kNriMask)) ||| kFuA) &&& (kFBit ||| kNriMask) |||
      (((if first then kSBit else 0) ||| (if last then kEBit else 0) ||| (h &&& kTypeMask)) &&& kTypeMask) = h := by
  revert h
  cases first <;> cases last <;> decide +kernel

theorem parse_fuPacket (h : UInt8) (first last : Bool) (chunk : List UInt8) :
    ∃ parsed, parse sps (fuPacket h first last chunk) = some parsed ∧ parsed.packetizationType = .fuA ∧
      parsed.isFirstPacket = first ∧ parsed.payload = (if first then [h] else []) ++ chunk ∧
      fuEnds (fuPacket h first last chunk) = last := by
  obtain ⟨hfirst, hlast, hheader⟩ := fu_header h first last
  obtain ⟨htype, -⟩ := indicator_type h
  have hends : fuEnds (fuPacket h first last chunk) = last := hlast
  have hfua : byteAt (fuPacket h first last chunk) 0 &&& kTypeMask = kFuA := htype
  have hstart : decide (byteAt (fuPacket h first last chunk) 1 &&& kSBit > 0) = first := hfirst
  have hrebuilt : byteAt (fuPacket h first last chunk) 0 &&& (kFBit ||| kNriMask) |||
      (byteAt (fuPacket h first last chunk) 1 &&& kTypeMask) = h := hheader
  have hlen : (fuPacket h first last chunk).length = chunk.length + 2 := rfl
  have hdrop : (fuPacket h first last chunk).drop kFuAHeaderSize = chunk := rfl
  have hguard : ¬ chunk.length + 2 < kFuAHeaderSize := by
    rw [kFuAHeaderSize]
    omega
  rw [parse, if_neg (by omega), if_pos hfua, parseFuaNalu, hlen]
  simp only [hrebuilt, hstart, hdrop, hends, decide_eq_false hguard]
  refine ⟨_, rfl, rfl, rfl, ?_, trivial⟩
  have hiff : byteAt (fuPacket h first last chunk) 1 &&& kSBit > 0 ↔ first = true :=
    decide_eq_true_iff.symm.trans (iff_of_eq (congrArg (· = true) hstart))
  simp only [hiff]
  cases first <;> rfl

theorem parse_bytes (n : Nalu) : ∃ parsed, parse sps n.bytes = some parsed ∧
    parsed.packetizationType = .singleNalu ∧ parsed.payload = n.bytes := by
  have hlen : n.bytes.length ≠ 0 := by simp
  have hfu : byteAt n.bytes 0 &&& kTypeMask ≠ kFuA := n.notFuA
  have hstap : byteAt n.bytes 0 &&& kTypeMask ≠ kStapA := n.notStapA
  rw [parse, if_neg hlen, if_neg hfu, parseSingleNalu]
  simp [hstap]

/-- The next unit of a packet of several. -/
theorem stapUnit_append (n : Nalu) (hlen : n.bytes.length < 65536) (rest : List UInt8) :
    ∃ a b, stapUnit n ++ rest = a :: b :: (n.bytes ++ rest) ∧ read16 a b = n.bytes.length := by
  refine ⟨_, _, rfl, ?_⟩
  rw [read16_write, UInt16.toNat_ofNat', Nat.mod_mod, Nat.mod_eq_of_lt hlen]

theorem stapUnits_flatMap {ns : List Nalu} (h : ∀ n ∈ ns, n.bytes.length < 65536) :
    verifyStapANaluLengths (ns.flatMap stapUnit) = true ∧ stapUnits (ns.flatMap stapUnit) =
        some (ns.map Nalu.bytes) := by
  induction ns with
  | nil => exact ⟨by simp [verifyStapANaluLengths], by simp [stapUnits]⟩
  | cons n ns ih =>
    obtain ⟨hverify, hunits⟩ := ih fun m hm => h m (List.mem_cons_of_mem n hm)
    obtain ⟨a, b, hsplit, hread⟩ := stapUnit_append n (h n List.mem_cons_self) (ns.flatMap stapUnit)
    have hfits : ¬ n.bytes.length > (n.bytes ++ ns.flatMap stapUnit).length := by
      rw [List.length_append]
      omega
    rw [List.flatMap_cons, hsplit, verifyStapANaluLengths, stapUnits, hread, if_neg hfits, if_neg hfits, List.drop_left,
      List.take_left, hverify, hunits]
    exact ⟨rfl, rfl⟩

theorem parse_stapPacket (n : Nalu) (ns : List Nalu) (h : ∀ m ∈ n :: ns, m.bytes.length < 65536) :
    ∃ parsed, parse sps (stapPacket n ns) = some parsed ∧ parsed.packetizationType = .stapA ∧
      stapUnits (parsed.payload.drop kNalHeaderSize) = some ((n :: ns).map Nalu.bytes) := by
  obtain ⟨-, htype⟩ := indicator_type n.header
  obtain ⟨hverify, hunits⟩ := stapUnits_flatMap h
  have hstap : byteAt (stapPacket n ns) 0 &&& kTypeMask = kStapA := htype
  have hfua : byteAt (stapPacket n ns) 0 &&& kTypeMask ≠ kFuA := by
    rw [hstap]
    decide
  have hdrop : (stapPacket n ns).drop kNalHeaderSize = (n :: ns).flatMap stapUnit := rfl
  have hlong : ¬ (stapPacket n ns).length ≤ kStapAHeaderSize := by
    have hpos := n.body_pos
    simp only [stapPacket, stapUnit, List.flatMap_cons, List.length_cons, List.length_append, be16_length,
      Nalu.bytes_length, kStapAHeaderSize, kNalHeaderSize, kLengthFieldSize]
    omega
  have hne : (stapPacket n ns).length ≠ 0 := by simp [stapPacket]
  rw [parse, if_neg hne, if_neg hfua, parseSingleNalu]
  simp only [hstap, hdrop, hverify, decide_eq_false hlong]
  exact ⟨_, rfl, rfl, hunits⟩

/-! ## Sizes -/

theorem stapUnit_length (n : Nalu) : (stapUnit n).length = n.bytes.length + 2 := by
  rw [stapUnit, List.length_append, be16_length, Nat.add_comm]

theorem flatMap_stapUnit_length (ns : List Nalu) : 4 * ns.length ≤ (ns.flatMap stapUnit).length := by
  induction ns with
  | nil => exact Nat.zero_le _
  | cons n ns ih =>
    have hpos := n.body_pos
    rw [List.flatMap_cons, List.length_append, stapUnit_length, List.length_cons, n.bytes_length]
    omega

theorem stapUnit_length_le {n : Nalu} {ns : List Nalu} (hn : n ∈ ns) :
    n.bytes.length + 2 + 4 * (ns.length - 1) ≤ (ns.flatMap stapUnit).length := by
  induction ns with
  | nil => cases hn
  | cons m ns ih =>
    have hrest := flatMap_stapUnit_length ns
    have hpos := m.body_pos
    rw [List.flatMap_cons, List.length_append, stapUnit_length, List.length_cons, m.bytes_length]
    rcases List.mem_cons.1 hn with rfl | hn
    · rw [n.bytes_length]
      omega
    · have hmem := ih hn
      have hlen := List.length_pos_of_mem hn
      omega

/-- Beside another unit there is no room for one whose length does not fit into its field. -/
theorem group_length {maxPayloadLen : Nat} {n m : Nalu} {group : List Nalu} (hmax : maxPayloadLen ≤ 65542)
    (hfits : (stapPacket n (m :: group)).length ≤ maxPayloadLen) : ∀ k ∈ n :: m :: group, k.bytes.length < 65536 := by
  intro k hk
  have hle := stapUnit_length_le hk
  rw [stapPacket, List.length_cons] at hfits
  rw [List.length_cons, List.length_cons] at hle
  omega

theorem mem_fuPackets {header : UInt8} {first : Bool} {chunks : List (List UInt8)} {p : List UInt8}
    (hp : p ∈ fuPackets header first chunks) : ∃ first last, ∃ chunk ∈ chunks, p =
    fuPacket header first last chunk := by
  induction chunks generalizing first with
  | nil => cases hp
  | cons chunk chunks ih =>
    cases chunks with
    | nil => exact ⟨first, true, chunk, List.mem_cons_self, List.mem_singleton.1 hp⟩
    | cons next chunks =>
      rcases List.mem_cons.1 hp with rfl | hp
      · exact ⟨first, false, chunk, List.mem_cons_self, rfl⟩
      · obtain ⟨first', last, c, hc, heq⟩ := ih hp
        exact ⟨first', last, c, List.mem_cons_of_mem _ hc, heq⟩

/-! ## What a receiver gets -/

/-- A fragment goes to what there is of its unit. -/
theorem depacketize_fuPacket (header : UInt8) (last : Bool) (chunk : List UInt8) (packets : List (List UInt8))
    (partly : Option (List UInt8)) :
    depacketize sps partly (fuPacket header partly.isNone last chunk :: packets) =
      if last then (depacketize sps none packets).map ((partly.getD [header] ++ chunk) :: ·)
      else depacketize sps (some (partly.getD [header] ++ chunk)) packets := by
  obtain ⟨parsed, hparsed, htype, hfirst, hpayload, hends⟩ :=
    @parse_fuPacket sps header partly.isNone last chunk
  have hunit : partly.getD [] ++ parsed.payload = partly.getD [header] ++ chunk := by
    rw [hpayload]
    cases partly <;> rfl
  rw [depacketize, hparsed]
  simp only [Option.bind_eq_bind, Option.bind_some, htype, hfirst, if_true, hunit, hends]

theorem depacketize_fuPackets (header : UInt8) {chunks : List (List UInt8)} (hne : chunks ≠ [])
    (packets : List (List UInt8)) (partly : Option (List UInt8)) :
    depacketize sps partly (fuPackets header partly.isNone chunks ++ packets) =
      (depacketize sps none packets).map ((partly.getD [header] ++ chunks.flatten) :: ·) := by
  induction chunks generalizing partly with
  | nil => exact absurd rfl hne
  | cons chunk chunks ih =>
    cases chunks with
    | nil => simp [fuPackets, depacketize_fuPacket]
    | cons next chunks =>
      have hrest := ih (List.cons_ne_nil next chunks) (some (partly.getD [header] ++ chunk))
      rw [fuPackets, List.cons_append, depacketize_fuPacket, if_neg Bool.false_ne_true]
      rw [Option.isNone_some, Option.getD_some] at hrest
      rw [hrest]
      simp only [List.flatten_cons, List.append_assoc]

namespace Carries

variable {maxPayloadLen : Nat} {nalus : List Nalu} {packets : List (List UInt8)}

/-- **What a receiver gets from the packets.** -/
theorem depacketize (h : Carries maxPayloadLen nalus packets) (hmax : maxPayloadLen ≤ 65542) :
    depacketize sps none packets = some (nalus.map Nalu.bytes) := by
  induction h with
  | nil => rfl
  | @single n ns packets _ _ ih =>
    obtain ⟨parsed, hparsed, htype, hpayload⟩ := @parse_bytes sps n
    rw [H264.depacketize, hparsed]
    simp only [Option.bind_eq_bind, Option.bind_some, htype, ih, hpayload, Option.map_some, List.map_cons]
  | @aggregate n m group ns packets hfits _ ih =>
    obtain ⟨parsed, hparsed, htype, hunits⟩ := @parse_stapPacket sps n (m :: group) (group_length hmax hfits)
    rw [H264.depacketize, hparsed]
    simp only [Option.bind_eq_bind, Option.bind_some, htype, ih, hunits, Option.map_some, List.map_append]
  | @fragments n ns chunks packets hcut hbody _ _ ih =>
    have hne : chunks ≠ [] := by
      rintro rfl
      simp at hcut
    have hall := @depacketize_fuPackets sps n.header chunks hne packets none
    rw [Option.isNone_none, Option.getD_none, ih, hbody] at hall
    exact hall

/-- Every packet fits, and the parser accepts it. -/
theorem packet_spec (h : Carries maxPayloadLen nalus packets) (hmax : maxPayloadLen ≤ 65542) :
    ∀ p ∈ packets, p.length ≤ maxPayloadLen ∧ (parse sps p).isSome := by
  induction h with
  | nil => nofun
  | @single n ns packets hfits _ ih =>
    obtain ⟨parsed, hparsed, -⟩ := @parse_bytes sps n
    rw [List.forall_mem_cons]
    exact ⟨⟨hfits, by rw [hparsed]; rfl⟩, ih⟩
  | @aggregate n m group ns packets hfits _ ih =>
    obtain ⟨parsed, hparsed, -⟩ := @parse_stapPacket sps n (m :: group) (group_length hmax hfits)
    rw [List.forall_mem_cons]
    exact ⟨⟨hfits, by rw [hparsed]; rfl⟩, ih⟩
  | @fragments n ns chunks packets _ _ hfits _ ih =>
    rw [List.forall_mem_append]
    refine ⟨fun p hp => ?_, ih⟩
    obtain ⟨first, last, chunk, hchunk, rfl⟩ := mem_fuPackets hp
    obtain ⟨parsed, hparsed, -⟩ := @parse_fuPacket sps n.header first last chunk
    exact ⟨(hfits chunk hchunk).2, by rw [hparsed]; rfl⟩

end Carries

end

end WebRtc.H264
