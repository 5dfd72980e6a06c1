import WebRtc.Rtp.Bounds
import WebRtc.Rtp.Extensions

/-!
# Extension blocks with padding

A block may have zeros between its elements, which count for nothing. The parser skips those behind an
element; where it looks for an element and finds a zero, it takes it for one with the id 0 and a value of
one byte, and so skips two bytes. Of any number of zeros but one it skips them all, if not at once, since
the zeros behind are counted modulo 256.
-/

namespace WebRtc.Rtp

open Bytes

/-- An element, and the number of zeros behind it. -/
structure Element where
  id : UInt8
  data : List UInt8
  padding : Nat
  id_range : 1 ≤ id ∧ id ≤ 14
  data_size : 1 ≤ data.length ∧ data.length ≤ 16

def Element.bytes (e : Element) : List UInt8 :=
  RTPSender.elementOctet e.id (e.data.length - 1) :: e.data ++ List.replicate e.padding 0

/-- A block with `lead` zeros before the first element. -/
structure PaddedBlock where
  lead : Nat
  elements : List Element

namespace PaddedBlock

def bytes (block : PaddedBlock) : List UInt8 :=
  List.replicate block.lead 0 ++ block.elements.flatMap Element.bytes

/-- Everything but the values. -/
def layout (block : PaddedBlock) : Nat × List (UInt8 × Nat × Nat) :=
  (block.lead, block.elements.map fun e => (e.id, e.data.length, e.padding))

end PaddedBlock

variable (m : RtpHeaderExtensionMap)

/-- An element with a registered id has the length of its type. -/
def Element.Defined (e : Element) : Prop := ∀ t, m.getType e.id = some t → t.len = some (e.data.length - 1)

def PaddedBlock.Defined (block : PaddedBlock) : Prop := ∀ e ∈ block.elements, e.Defined m

/-- What an element adds. -/
def takeElement (ext : RTPHeaderExtension) (e : Element) : RTPHeaderExtension :=
  match m.getType e.id with
  | some t => setValue t e.data ext
  | none => ext

/-- For each registered type the value of its last element is in `ext`. -/
def LastValues (elements : List Element) (ext : RTPHeaderExtension) : Prop :=
  ∀ before e after t, elements = before ++ e :: after → m.getType e.id = some t →
    (∀ e' ∈ after, m.getType e'.id ≠ some t) → setValue t e.data ext = ext

variable {m} {buf : List UInt8} {p stop : Nat}

/-! ## Zeros -/

/-- An element does not begin with a zero. -/
theorem elements_nonzero {elements : List Element} (h : At buf p (elements.flatMap Element.bytes))
    (hstop : stop = p + (elements.flatMap Element.bytes).length) : p < stop → byteAt buf p ≠ 0 := by
  intro hlt
  cases elements with
  | nil =>
    rw [List.flatMap_nil, List.length_nil] at hstop
    omega
  | cons e rest =>
    obtain ⟨hlo, hhi⟩ := e.data_size
    obtain ⟨hne, -, -⟩ := elementOctet_bits e.id_range.1 e.id_range.2 (show e.data.length - 1 < 16 by omega)
    rw [List.flatMap_cons, Element.bytes, List.cons_append, List.cons_append] at h
    rw [(at_cons.1 h).1.byte]
    exact hne

/-- The zeros behind an element, and those that are left of them. -/
theorem padding_skipped {n : Nat} {elements : List Element}
    (h : At buf p (List.replicate n 0 ++ elements.flatMap Element.bytes))
    (hstop : stop = p + n + (elements.flatMap Element.bytes).length) :
    (parsePaddingBytes (byteAt buf) stop stop p 0).val.toNat = n % 256 ∧
      At buf (p + n % 256) (List.replicate (n - n % 256) 0 ++ elements.flatMap Element.bytes) ∧
      stop = p + n % 256 + (n - n % 256) + (elements.flatMap Element.bytes).length := by
  have hmod := Nat.mod_le n 256
  have hsplit : List.replicate n (0 : UInt8) = List.replicate (n % 256) 0 ++ List.replicate (n - n % 256) 0 := by
    rw [List.replicate_append_replicate, Nat.add_sub_cancel' hmod]
  obtain ⟨hzeros, hrest⟩ := at_append.1 h
  rw [List.length_replicate] at hrest
  have hnext := elements_nonzero hrest hstop
  refine ⟨?_, ?_, by omega⟩
  · rw [parsePaddingBytes_run hzeros (by omega) hnext (by omega), UInt8.zero_add, UInt8.toNat_ofNat']
  · rw [hsplit, List.append_assoc] at h
    have hafter := (at_append.1 h).2
    rwa [List.length_replicate] at hafter

/-! ## The elements -/

theorem zero_octet (m : RtpHeaderExtensionMap) : m.getType 0 = none := by
  cases h : m.getType 0 with
  | none => rfl
  | some t =>
    obtain ⟨e, he, -⟩ := Option.map_eq_some_iff.1 h
    have hid : e.id = 0 := by simpa using List.find?_some he
    have hrange := (m.range e (List.mem_of_find?_eq_some he)).1
    rw [hid] at hrange
    exact absurd hrange (by decide)

/-- A zero where an element is looked for. -/
theorem parse_zero {k : Nat} (h : At buf p [0]) (hp : p < stop) (fuel : Nat) (ext : RTPHeaderExtension)
    (hk : (parsePaddingBytes (byteAt buf) stop stop (p + 2) 0).val.toNat = k) :
    (parseOneByteExtensionHeader (byteAt buf) m stop (fuel + 1) p ext).val =
      (parseOneByteExtensionHeader (byteAt buf) m stop fuel (p + 2 + k) ext).val := by
  have hid : ((0 : UInt8) &&& 0xF0) >>> 4 = 0 := by decide
  have hlen : ((0 : UInt8) &&& 0x0F).toNat = 0 := by decide
  have h15 : ¬ (0 : UInt8) = 15 := by decide
  rw [parseOneByteExtensionHeader, if_pos hp]
  simp only [octet, Reads.val_bind, h.byte, hid, hlen, if_neg h15, zero_octet]
  rw [Nat.add_assoc p 1 (0 + 1), hk]

/-- An element, with what stands behind it. -/
theorem parse_element {e : Element} (he : e.Defined m) {rest : List UInt8} (h : At buf p (e.bytes ++ rest))
    (hp : p < stop) {k : Nat} (fuel : Nat) (ext : RTPHeaderExtension)
    (hk : (parsePaddingBytes (byteAt buf) stop stop (p + 1 + e.data.length) 0).val.toNat = k) :
    (parseOneByteExtensionHeader (byteAt buf) m stop (fuel + 1) p ext).val =
      (parseOneByteExtensionHeader (byteAt buf) m stop fuel (p + 1 + e.data.length + k) (takeElement m ext e)).val := by
  obtain ⟨hone, hsixteen⟩ := e.data_size
  obtain ⟨-, hid, hlow⟩ := elementOctet_bits e.id_range.1 e.id_range.2 (show e.data.length - 1 < 16 by omega)
  have hnot15 : ¬ e.id = 15 := by
    intro h15
    have h14 := e.id_range.2
    rw [h15] at h14
    exact absurd h14 (by decide)
  rw [Element.bytes, List.cons_append, List.cons_append] at h
  obtain ⟨hoctet, hdata⟩ := at_cons.1 h
  rw [List.append_assoc] at hdata
  have hdata := (at_append.1 hdata).1
  have hsize : e.data.length - 1 + 1 = e.data.length := Nat.sub_add_cancel hone
  rw [parseOneByteExtensionHeader, if_pos hp]
  simp only [octet, Reads.val_bind, hoctet.byte, hid, hlow, if_neg hnot15, hsize]
  cases ht : m.getType e.id with
  | none =>
    simp only [Reads.val_bind, hk, takeElement, ht]
  | some t =>
    have hlen := he t ht
    have hlength : e.data.length + 1 = t.length := by
      cases t <;> simp only [RTPExtensionType.len, RTPExtensionType.length, Option.some.injEq,
        reduceCtorEq] at hlen ⊢ <;>
        omega
    simp only [hlen, ne_eq, not_true_eq_false, if_false, Reads.val_bind, hk, readExtension_at hdata hlength,
      takeElement, ht]

/-- **The parser takes one element after the other**, whatever the zeros between them, if it does not begin at a
single zero. -/
theorem parse_elements {k : Nat} {elements : List Element} (hdef : ∀ e ∈ elements, e.Defined m)
    (h : At buf p (List.replicate k 0 ++ elements.flatMap Element.bytes))
    (hstop : stop = p + k + (elements.flatMap Element.bytes).length) (hk : k = 1 → elements = []) {fuel : Nat}
    (hfuel : stop ≤ p + fuel) (ext : RTPHeaderExtension) :
    (parseOneByteExtensionHeader (byteAt buf) m stop fuel p ext).val = some (elements.foldl (takeElement m) ext) := by
  induction fuel generalizing k elements p ext with
  | zero =>
    have hnil : elements = [] := by
      cases elements with
      | nil => rfl
      | cons e rest =>
        rw [List.flatMap_cons, List.length_append, Element.bytes] at hstop
        simp only [List.length_cons, List.length_append] at hstop
        omega
    rw [hnil, parseOneByteExtensionHeader, if_neg (by omega)]
    rfl
  | succ fuel ih =>
    rcases k with - | - | k
    · -- An element, or the end.
      rw [List.replicate_zero, List.nil_append] at h
      cases elements with
      | nil =>
        rw [List.flatMap_nil, List.length_nil] at hstop
        rw [parseOneByteExtensionHeader, if_neg (by omega)]
        rfl
      | cons e rest =>
        rw [List.flatMap_cons] at h hstop
        have hsize : e.bytes.length = 1 + e.data.length + e.padding := by
          simp only [Element.bytes, List.length_cons, List.length_append, List.length_replicate]
          omega
        rw [List.length_append, hsize] at hstop
        have hbehind : At buf (p + 1 + e.data.length) (List.replicate e.padding 0 ++ rest.flatMap Element.bytes) := by
          have h' := h
          rw [Element.bytes, List.append_assoc, at_append, List.length_cons] at h'
          have hpos : p + (e.data.length + 1) = p + 1 + e.data.length := by omega
          rw [← hpos]
          exact h'.2
        have hend : stop = p + 1 + e.data.length + e.padding + (rest.flatMap Element.bytes).length := by omega
        obtain ⟨hskip, hrest, hstop'⟩ := padding_skipped hbehind hend
        rw [parse_element (hdef e List.mem_cons_self) h (by omega) fuel ext hskip, List.foldl_cons]
        exact ih (fun e he => hdef e (List.mem_cons_of_mem _ he)) hrest hstop' (by omega) (by omega) _
    · -- The zero at the end.
      have hnil := hk rfl
      subst hnil
      rw [List.flatMap_nil, List.length_nil] at hstop
      have hnone : (parsePaddingBytes (byteAt buf) stop stop (p + 2) 0).val.toNat = 0 := by
        cases stop with
        | zero => rfl
        | succ n =>
          rw [parsePaddingBytes, if_neg (by omega)]
          rfl
      rw [List.flatMap_nil, List.append_nil] at h
      rw [parse_zero h (by omega) fuel ext hnone]
      cases fuel <;> rw [parseOneByteExtensionHeader, if_neg (by omega)] <;> rfl
    · rw [List.replicate_succ, List.replicate_succ, List.cons_append, List.cons_append] at h
      obtain ⟨hzero, h1⟩ := at_cons.1 h
      obtain ⟨-, h2⟩ := at_cons.1 h1
      have hend : stop = p + 2 + k + (elements.flatMap Element.bytes).length := by omega
      obtain ⟨hskip, hrest, hstop'⟩ := padding_skipped h2 hend
      rw [parse_zero hzero (by omega) fuel ext hskip]
      exact ih hdef hrest hstop' (by omega) (by omega) _

/-! ## Last values -/

theorem foldl_takeElement {t : RTPExtensionType} (d : List UInt8) {l : List Element}
    (h : ∀ e ∈ l, m.getType e.id ≠ some t) (ext : RTPHeaderExtension) :
    l.foldl (takeElement m) (setValue t d ext) = setValue t d (l.foldl (takeElement m) ext) := by
  induction l generalizing ext with
  | nil => rfl
  | cons e l ih =>
    have hcomm : takeElement m (setValue t d ext) e = setValue t d (takeElement m ext e) := by
      unfold takeElement
      cases ht : m.getType e.id with
      | none => rfl
      | some t' =>
        have hne : t' ≠ t := fun heq => h e List.mem_cons_self (by rw [ht, heq])
        exact setValue_comm hne e.data d ext
    rw [List.foldl_cons, List.foldl_cons, hcomm, ih fun e' he' => h e' (List.mem_cons_of_mem _ he')]

theorem lastValues_foldl (elements : List Element) (ext : RTPHeaderExtension) :
    LastValues m elements (elements.foldl (takeElement m) ext) := by
  rintro before e after t rfl ht hafter
  have htake : takeElement m (before.foldl (takeElement m) ext) e =
      setValue t e.data (before.foldl (takeElement m) ext) := by simp only [takeElement, ht]
  rw [List.foldl_append, List.foldl_cons, htake, foldl_takeElement e.data hafter, setValue_setValue]

/-- The flag of the type. -/
theorem setValue_empty {t : RTPExtensionType} (ht : t ≠ .none) (d : List UInt8) :
    setValue t d RTPHeaderExtension.empty ≠ RTPHeaderExtension.empty := by
  cases t <;> first
    | exact absurd rfl ht
    | simp [setValue, readExtension, RTPHeaderExtension.empty]

/-- There is a last element of a type that has elements. -/
theorem exists_last {l : List Element} {e : Element} {t : RTPExtensionType} (he : e ∈ l)
    (ht : m.getType e.id = some t) :
    ∃ before e' after, l = before ++ e' :: after ∧ m.getType e'.id = some t ∧ ∀ a ∈ after, m.getType a.id ≠ some t := by
  induction l generalizing e with
  | nil => cases he
  | cons a l ih =>
    by_cases hlater : ∃ b ∈ l, m.getType b.id = some t
    · obtain ⟨b, hb, hbt⟩ := hlater
      obtain ⟨before, e', after, rfl, ht', hafter⟩ := ih hb hbt
      exact ⟨a :: before, e', after, rfl, ht', hafter⟩
    · push Not at hlater
      rcases List.mem_cons.1 he with rfl | he
      · exact ⟨[], e, l, rfl, ht, hlater⟩
      · exact absurd ht (hlater e he)

/-! ## A single zero in front -/

/-- The element with a value on which the parser ends when it looks for an element there. -/
def Element.ending (e : Element) : Element where
  id := e.id
  data := 0xF0 :: e.data.tail
  padding := e.padding
  id_range := e.id_range
  data_size := by
    obtain ⟨hlo, hhi⟩ := e.data_size
    rw [List.length_cons, List.length_tail]
    omega

theorem ending_length (e : Element) : e.ending.data.length = e.data.length := by
  have hlo := e.data_size.1
  rw [Element.ending, List.length_cons, List.length_tail, Nat.sub_add_cancel hlo]

/-- Nothing is taken of such a block. -/
theorem parse_ending {e : Element} {rest : List UInt8} (h : At buf p (0 :: (e.ending.bytes ++ rest)))
    (hstop : p + 2 < stop) (fuel : Nat) (ext : RTPHeaderExtension) :
    (parseOneByteExtensionHeader (byteAt buf) m stop (fuel + 2) p ext).val = some ext := by
  obtain ⟨hzero, h⟩ := at_cons.1 h
  rw [Element.bytes, List.cons_append, List.cons_append] at h
  obtain ⟨-, h⟩ := at_cons.1 h
  rw [Element.ending, List.cons_append, List.cons_append] at h
  have hbyte : byteAt buf (p + 2) = 0xF0 := (at_cons.1 h).1.byte
  have hnone : (parsePaddingBytes (byteAt buf) stop stop (p + 2) 0).val.toNat = 0 := by
    rw [parsePaddingBytes_nonzero (by rw [hbyte]; decide)]
    rfl
  have hid : ((0xF0 : UInt8) &&& 0xF0) >>> 4 = 15 := by decide
  rw [parse_zero hzero (by omega) (fuel + 1) ext hnone, Nat.add_zero, parseOneByteExtensionHeader, if_pos hstop]
  simp only [octet, Reads.val_bind, hbyte, hid, if_true, Reads.val_pure]

/-- What holds of a block: wherever it stands, and whatever has been found before. -/
def ParsedCompletely (m : RtpHeaderExtensionMap) (block : PaddedBlock) : Prop :=
  ∀ (buf : List UInt8) (p : Nat) (ext : RTPHeaderExtension), At buf p block.bytes →
    ∃ out, (parseOneByteExtensionHeader (byteAt buf) m (p + block.bytes.length) (p + block.bytes.length) p ext).val =
      some out ∧ LastValues m block.elements out

theorem parsedCompletely_of_lead {block : PaddedBlock} (hdef : block.Defined m)
    (hlead : block.lead = 1 → block.elements = []) : ParsedCompletely m block := by
  intro buf p ext hat
  have hlen : block.bytes.length = block.lead + (block.elements.flatMap Element.bytes).length := by
    rw [PaddedBlock.bytes, List.length_append, List.length_replicate]
  exact ⟨_, parse_elements hdef hat (by omega) hlead (Nat.le_add_left _ _) ext, lastValues_foldl _ _⟩

/-- Blocks of one layout have the same ids and lengths. -/
theorem mem_of_layout {block block' : PaddedBlock} (h : block'.layout = block.layout) {e : Element}
    (he : e ∈ block'.elements) : ∃ e' ∈ block.elements, e'.id = e.id ∧ e'.data.length = e.data.length := by
  have hmem : (e.id, e.data.length, e.padding) ∈ block'.layout.2 :=
    List.mem_map_of_mem (f := fun e : Element => (e.id, e.data.length, e.padding)) he
  rw [h] at hmem
  obtain ⟨e', he', heq⟩ := List.mem_map.1 hmem
  exact ⟨e', he', (Prod.mk.inj heq).1, (Prod.mk.inj (Prod.mk.inj heq).2).1⟩

/-- **When a padded block is parsed completely**, whatever its values: it does not begin with a single zero, or
it has nothing to report. -/
theorem parsedCompletely_iff {m : RtpHeaderExtensionMap} {block : PaddedBlock} (hdef : block.Defined m) :
    (∀ block' : PaddedBlock, block'.layout = block.layout → ParsedCompletely m block') ↔
      (block.lead = 1 → ∀ e ∈ block.elements, m.getType e.id = none) := by
  constructor
  · intro h hlead e he
    cases ht : m.getType e.id with
    | none => rfl
    | some t =>
      exfalso
      have hknown : t ≠ .none := by
        rintro rfl
        cases hdef e he _ ht
      obtain ⟨lead, elements⟩ := block
      dsimp only at hlead he
      cases elements with
      | nil => cases he
      | cons first rest =>
        have hlayout : (PaddedBlock.mk 1 (first.ending :: rest)).layout =
            (PaddedBlock.mk lead (first :: rest)).layout := by
          simp only [PaddedBlock.layout, List.map_cons, ending_length, hlead]
          rfl
        have hbytes : (PaddedBlock.mk 1 (first.ending :: rest)).bytes =
            0 :: (first.ending.bytes ++ rest.flatMap Element.bytes) := by
          rw [PaddedBlock.bytes, List.flatMap_cons]
          rfl
        have hlong : 0 + 2 < 0 + (PaddedBlock.mk 1 (first.ending :: rest)).bytes.length := by
          rw [hbytes, Element.bytes, Element.ending]
          simp only [List.length_cons, List.length_append]
          omega
        obtain ⟨fuel, hfuel⟩ : ∃ fuel, 0 + (PaddedBlock.mk 1 (first.ending :: rest)).bytes.length = fuel + 2 :=
          ⟨_, (Nat.sub_add_cancel (by omega)).symm⟩
        have hat := at_zero (PaddedBlock.mk 1 (first.ending :: rest)).bytes []
        obtain ⟨out, hout, hlast⟩ := h _ hlayout _ 0 .empty hat
        rw [hbytes] at hat
        have hends := parse_ending (m := m) hat hlong fuel .empty
        rw [← hfuel, ← hbytes] at hends
        rw [hends] at hout
        -- Nothing is found, but an element of the type is there.
        have hthere : ∃ a ∈ first.ending :: rest, m.getType a.id = some t := by
          rcases List.mem_cons.1 he with rfl | he
          · exact ⟨e.ending, List.mem_cons_self, ht⟩
          · exact ⟨e, List.mem_cons_of_mem _ he, ht⟩
        obtain ⟨a, ha, hat⟩ := hthere
        obtain ⟨before, last, after, hsplit, htype, hafter⟩ := exists_last ha hat
        have hset := hlast before last after t hsplit htype hafter
        rw [← Option.some.inj hout] at hset
        exact setValue_empty hknown _ hset
  · intro h block' hlayout
    have hlead : block'.lead = block.lead := congrArg Prod.fst hlayout
    have hdef' : block'.Defined m := by
      intro e he t ht
      obtain ⟨e', he', hid, hlen⟩ := mem_of_layout hlayout he
      rw [← hlen]
      exact hdef e' he' t (by rw [hid, ht])
    by_cases h1 : block.lead = 1
    · intro buf p ext _
      obtain ⟨hsome, -, -⟩ := @parseOneByteExtensionHeader_log (byteAt buf) m (p + block'.bytes.length)
        (p + block'.bytes.length) p (Nat.le_add_left _ _) ext
      obtain ⟨out, hout⟩ := Option.isSome_iff_exists.1 hsome
      refine ⟨out, hout, ?_⟩
      rintro before e after t hsplit ht -
      obtain ⟨e', he', hid, -⟩ := mem_of_layout hlayout
        (hsplit ▸ List.mem_append_right _ List.mem_cons_self : e ∈ block'.elements)
      rw [← hid, h h1 e' he'] at ht
      cases ht
    · exact parsedCompletely_of_lead hdef' fun hone => absurd (hlead ▸ hone) h1

/-- A map with the audio level under the id 5. -/
def audioMap : RtpHeaderExtensionMap := ⟨[⟨5, .audioLevel, true⟩], List.pairwise_singleton _ _, by decide⟩

/-- An unknown element and an audio level, with 300 zeros between them and `lead` in front. -/
def audioBlock (lead : Nat) : PaddedBlock :=
  ⟨lead, [⟨3, [1, 2], 300, by decide, by decide⟩, ⟨5, [0x83], 2, by decide, by decide⟩]⟩

theorem audioBlock_defined (lead : Nat) : (audioBlock lead).Defined audioMap := by
  intro e he t ht
  rcases List.mem_cons.1 he with rfl | he
  · cases ht
  · rcases List.mem_singleton.1 he with rfl
    cases ht
    rfl

theorem parsedCompletely_iff_two : ParsedCompletely audioMap (audioBlock 2) :=
  (parsedCompletely_iff (audioBlock_defined 2)).2 (fun h => absurd h (by decide)) _ rfl

/-- A zero, and the audio level behind it is not found. -/
theorem parsedCompletely_not : ¬ ∀ (m : RtpHeaderExtensionMap) (block : PaddedBlock), block.Defined m →
    ParsedCompletely m block := by
  intro h
  have hdef : (PaddedBlock.mk 1 [⟨5, [0x83], 1, by decide, by decide⟩]).Defined audioMap := by
    intro e he t ht
    rcases List.mem_singleton.1 he with rfl
    cases ht
    rfl
  obtain ⟨out, hout, hlast⟩ := h audioMap ⟨1, [⟨5, [0x83], 1, by decide, by decide⟩]⟩ hdef [0, 0x50, 0x83, 0] 0 .empty
    ⟨[], rfl⟩
  have hnone : out = RTPHeaderExtension.empty := Option.some.inj (hout.symm.trans (by decide))
  exact setValue_empty (by decide) [0x83] (hnone ▸ hlast [] _ [] .audioLevel rfl rfl (by simp))

end WebRtc.Rtp
