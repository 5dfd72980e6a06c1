import WebRtc.Rtp.Parser

/-!
# Where the parser reads

What stands in the extension block is a run of elements, and the parser steps from one to the next
(`ElementAt`). It never looks whether the value of an element lies in the block: it reads outside of it,
and possibly outside of the packet, exactly when an element of a registered type ends behind the block.
-/

namespace WebRtc.Rtp

section Elements
variable (memory : Nat → UInt8) (m : RtpHeaderExtensionMap) (stop : Nat)

/-- The upper half of the octet with which an element begins. -/
def elementId (p : Nat) : UInt8 := (memory p &&& 0xF0) >>> 4

/-- The lower half: the number of bytes of the value, less one. -/
def elementLen (p : Nat) : Nat := (memory p &&& 0x0F).toNat

/-- The element at `p` has the type and the length of a registered extension. -/
def Registered (p : Nat) : Prop :=
  elementId memory p ≠ 15 ∧ ∃ type, m.getType (elementId memory p) = some type ∧ type.len = some (elementLen memory p)

/-- The element at `p` is skipped. -/
def Unknown (p : Nat) : Prop := elementId memory p ≠ 15 ∧ m.getType (elementId memory p) = none

/-- Where the element behind the one at `p` begins. -/
def nextElement (p : Nat) : Nat :=
  p + 1 + (elementLen memory p + 1) +
    (parsePaddingBytes memory stop stop (p + 1 + (elementLen memory p + 1)) 0).val.toNat

/-- An element begins at `q` when one begins at `p`. -/
inductive ElementAt : Nat → Nat → Prop where
  | here {p : Nat} (inside : p < stop) : ElementAt p p
  | later {p q : Nat} (inside : p < stop) (goesOn : Registered memory m p ∨ Unknown memory m p)
      (rest : ElementAt (nextElement memory stop p) q) : ElementAt p q

/-- The value of the element at `p` lies in the block. -/
def FitsAt (p : Nat) : Prop := Registered memory m p → p + 1 + elementLen memory p < stop

end Elements

variable {memory : Nat → UInt8} {m : RtpHeaderExtensionMap} {stop : Nat}

theorem elementAt_iff {p q : Nat} (hp : p < stop) : ElementAt memory m stop p q ↔
    q = p ∨ (Registered memory m p ∨ Unknown memory m p) ∧ ElementAt memory m stop (nextElement memory stop p) q := by
  constructor
  · intro h
    cases h with
    | here _ => exact Or.inl rfl
    | later _ goesOn rest => exact Or.inr ⟨goesOn, rest⟩
  · rintro (rfl | ⟨goesOn, rest⟩)
    · exact .here hp
    · exact .later hp goesOn rest

theorem no_element {p q : Nat} (hp : ¬ p < stop) : ¬ ElementAt memory m stop p q := by
  intro h
  cases h with
  | here inside => exact hp inside
  | later inside => exact hp inside

/-! ## Logs -/

/-- All of it from `lo` on and before `hi`. -/
def Within (lo hi : Nat) (log : List Access) : Prop := ∀ a ∈ log, lo ≤ a.pos ∧ a.pos < hi

/-- The values are read before `hi`. -/
def ValuesBefore (hi : Nat) (log : List Access) : Prop := ∀ p, Access.value p ∈ log → p < hi

/-- Nothing but values is read at or behind `hi`, nor anything before `lo`. -/
def OctetsWithin (lo hi : Nat) (log : List Access) : Prop :=
  ∀ a ∈ log, lo ≤ a.pos ∧ (a = .octet a.pos → a.pos < hi)

theorem Within.append {lo hi : Nat} {l l' : List Access} (h : Within lo hi l)
    (h' : Within lo hi l') : Within lo hi (l ++ l') := by
  intro a ha
  rcases List.mem_append.1 ha with ha | ha
  · exact h a ha
  · exact h' a ha

theorem Within.mono {lo lo' hi hi' : Nat} {l : List Access} (h : Within lo hi l) (hlo : lo' ≤ lo) (hhi : hi ≤ hi') :
    Within lo' hi' l := by
  intro a ha
  obtain ⟨h1, h2⟩ := h a ha
  exact ⟨Nat.le_trans hlo h1, Nat.lt_of_lt_of_le h2 hhi⟩

theorem within_nil (lo hi : Nat) : Within lo hi [] := by simp [Within]

theorem within_octet {lo hi p : Nat} (hlo : lo ≤ p) (hhi : p < hi) : Within lo hi [.octet p] := by
  simpa [Within, Access.pos] using ⟨hlo, hhi⟩

theorem OctetsWithin.append {lo hi : Nat} {l l' : List Access} (h : OctetsWithin lo hi l) (h' : OctetsWithin lo hi l') :
    OctetsWithin lo hi (l ++ l') := by
  intro a ha
  rcases List.mem_append.1 ha with ha | ha
  · exact h a ha
  · exact h' a ha

theorem OctetsWithin.mono {lo lo' hi : Nat} {l : List Access} (h : OctetsWithin lo hi l) (hlo : lo' ≤ lo) :
    OctetsWithin lo' hi l := by
  intro a ha
  exact ⟨Nat.le_trans hlo (h a ha).1, (h a ha).2⟩

theorem Within.octets {lo hi : Nat} {l : List Access} (h : Within lo hi l) : OctetsWithin lo hi l := by
  intro a ha
  exact ⟨(h a ha).1, fun _ => (h a ha).2⟩

theorem valuesBefore_append {hi : Nat} {l l' : List Access} :
    ValuesBefore hi (l ++ l') ↔ ValuesBefore hi l ∧ ValuesBefore hi l' := by
  simp only [ValuesBefore, List.mem_append]
  constructor
  · intro h
    exact ⟨fun p hp => h p (Or.inl hp), fun p hp => h p (Or.inr hp)⟩
  · rintro ⟨h, h'⟩ p (hp | hp)
    · exact h p hp
    · exact h' p hp

theorem Within.values {lo hi : Nat} {l : List Access} (h : Within lo hi l) : ValuesBefore hi l :=
  fun _ hp => (h _ hp).2

/-! ## The loops -/

theorem parsePaddingBytes_within (fuel p : Nat) (n : UInt8) :
    Within p stop (parsePaddingBytes memory stop fuel p n).log := by
  induction fuel generalizing p n with
  | zero => exact within_nil _ _
  | succ fuel ih =>
    rw [parsePaddingBytes]
    by_cases hp : p < stop
    · rw [if_pos hp, Reads.log_bind]
      refine Within.append (within_octet (Nat.le_refl p) hp) ?_
      split
      · exact within_nil _ _
      · exact (ih (p + 1) (n + 1)).mono (Nat.le_succ p) (Nat.le_refl _)
    · rw [if_neg hp]
      exact within_nil _ _

/-- The parser reads the whole value. -/
theorem readExtension_log {type : RTPExtensionType} {len : Nat} (h : type.len = some len) (p : Nat)
    (ext : RTPHeaderExtension) :
    (readExtension memory type p ext).log = (List.range (len + 1)).map fun i => .value (p + i) := by
  cases type <;> cases h <;> rfl

/-- **The loop**: it ends, and what it reads outside of the block are values that do not fit. -/
theorem parseOneByteExtensionHeader_log (fuel p : Nat) (hfuel : stop ≤ p + fuel) (ext : RTPHeaderExtension) :
    (parseOneByteExtensionHeader memory m stop fuel p ext).val.isSome ∧
      OctetsWithin p stop (parseOneByteExtensionHeader memory m stop fuel p ext).log ∧
      (ValuesBefore stop (parseOneByteExtensionHeader memory m stop fuel p ext).log ↔
        ∀ q, ElementAt memory m stop p q → FitsAt memory m stop q) := by
  induction fuel generalizing p ext with
  | zero =>
    have hp : ¬ p < stop := Nat.not_lt.2 hfuel
    rw [parseOneByteExtensionHeader, if_neg hp]
    refine ⟨rfl, (within_nil _ _).octets, ?_⟩
    simp [no_element hp, ValuesBefore]
  | succ fuel ih =>
    by_cases hp : p < stop
    · have hoctet : Within p stop [.octet p] := within_octet (Nat.le_refl p) hp
      have hoctet' : (octet memory p).log = [.octet p] := rfl
      have hval : (octet memory p).val = memory p := rfl
      rw [parseOneByteExtensionHeader, if_pos hp]
      simp only [Reads.val_bind, Reads.log_bind, hoctet', hval]
      have hid : (memory p &&& 0xF0) >>> 4 = elementId memory p := rfl
      have hlen : (memory p &&& 0x0F).toNat = elementLen memory p := rfl
      rw [hid, hlen]
      by_cases h15 : elementId memory p = 15
      · -- Parsing ends.
        simp only [h15, if_true, Reads.val_pure, Reads.log_pure, List.append_nil]
        refine ⟨rfl, hoctet.octets, ?_⟩
        have hno : ¬ Registered memory m p := fun h => h.1 h15
        have hend : ¬ (Registered memory m p ∨ Unknown memory m p) := by
          rintro (h | h)
          · exact h.1 h15
          · exact h.1 h15
        simp only [elementAt_iff hp, hend, false_and, or_false]
        exact ⟨fun _ q hq h => absurd (hq ▸ h) hno, fun _ => hoctet.values⟩
      · rw [if_neg h15]
        have hpad := @parsePaddingBytes_within memory stop stop (p + 1 + (elementLen memory p + 1)) 0
        cases htype : m.getType (elementId memory p) with
        | none =>
          obtain ⟨hsome, hlog, hvalues⟩ := ih (nextElement memory stop p) (by unfold nextElement; omega) ext
          have hunknown : Unknown memory m p := ⟨h15, htype⟩
          have hno : ¬ Registered memory m p := by
            rintro ⟨-, type, h, -⟩
            rw [htype] at h
            cases h
          simp only [Reads.val_bind, Reads.log_bind]
          refine ⟨hsome, ?_, ?_⟩
          · refine hoctet.octets.append ((hpad.octets.mono (by omega)).append (hlog.mono ?_))
            unfold nextElement
            omega
          · simp only [valuesBefore_append, hoctet.values, hpad.values, true_and, elementAt_iff hp, hunknown, or_true]
            refine hvalues.trans ⟨?_, fun h q hq => h q (Or.inr hq)⟩
            rintro h q (rfl | hq)
            · exact fun hr => absurd hr hno
            · exact h q hq
        | some type =>
          by_cases hlenOk : type.len = some (elementLen memory p)
          · obtain ⟨hsome, hlog, hvalues⟩ := ih (nextElement memory stop p) (by unfold nextElement; omega)
              (readExtension memory type (p + 1) ext).val
            have hreg : Registered memory m p := ⟨h15, type, htype, hlenOk⟩
            have hread := @readExtension_log memory type _ hlenOk (p + 1) ext
            simp only [hlenOk, ne_eq, not_true_eq_false, if_false, Reads.val_bind, Reads.log_bind, hread]
            refine ⟨hsome, ?_, ?_⟩
            · refine hoctet.octets.append (OctetsWithin.append ?_ ((hpad.octets.mono (by omega)).append (hlog.mono ?_)))
              · intro a ha
                obtain ⟨i, -, rfl⟩ := List.mem_map.1 ha
                exact ⟨by simp only [Access.pos]; omega, fun h => by cases h⟩
              · unfold nextElement
                omega
            · have hfits : ValuesBefore stop ((List.range (elementLen memory p + 1)).map fun i => .value (p + 1 + i)) ↔
                  FitsAt memory m stop p := by
                unfold ValuesBefore FitsAt
                simp only [List.mem_map, List.mem_range, Access.value.injEq, hreg, forall_const]
                constructor
                · intro h
                  exact h _ ⟨_, Nat.lt_succ_self _, rfl⟩
                · rintro h q ⟨i, hi, rfl⟩
                  omega
              simp only [valuesBefore_append, hoctet.values, hpad.values, true_and, elementAt_iff hp,
                hreg, true_or, hfits]
              refine (and_congr Iff.rfl hvalues).trans ?_
              constructor
              · rintro ⟨hfit, h⟩ q (rfl | hq)
                · exact hfit
                · exact h q hq
              · intro h
                exact ⟨h p (Or.inl rfl), fun q hq => h q (Or.inr hq)⟩
          · -- A wrong length: parsing ends.
            have hno : ¬ Registered memory m p := by
              rintro ⟨-, type', h, h'⟩
              rw [htype] at h
              cases h
              exact hlenOk h'
            have hend : ¬ (Registered memory m p ∨ Unknown memory m p) := by
              rintro (h | h)
              · exact hno h
              · rw [h.2] at htype
                cases htype
            simp only [hlenOk, ne_eq, not_false_eq_true, if_true, Reads.val_pure, Reads.log_pure, List.append_nil]
            refine ⟨rfl, hoctet.octets, ?_⟩
            simp only [elementAt_iff hp, hend, false_and, or_false]
            exact ⟨fun _ q hq h => absurd (hq ▸ h) hno, fun _ => hoctet.values⟩
    · rw [parseOneByteExtensionHeader, if_neg hp]
      refine ⟨rfl, (within_nil _ _).octets, ?_⟩
      simp [no_element hp, ValuesBefore]

theorem read16_within {lo hi p : Nat} (hlo : lo ≤ p) (hhi : p + 1 < hi) : Within lo hi (read16 memory p).log := by
  refine Within.append (within_octet hlo (by omega)) (Within.append (within_octet (by omega) hhi) ?_)
  exact within_nil _ _

theorem read32_within {lo hi p : Nat} (hlo : lo ≤ p) (hhi : p + 3 < hi) : Within lo hi (read32 memory p).log := by
  refine Within.append (within_octet hlo (by omega)) (Within.append (within_octet (by omega) (by omega)) ?_)
  refine Within.append (within_octet (by omega) (by omega)) (Within.append (within_octet (by omega) hhi) ?_)
  exact within_nil _ _

theorem readCsrcs_within {hi : Nat} (n p : Nat) (h : p + n * 4 ≤ hi) : Within p hi (readCsrcs memory n p).log := by
  induction n generalizing p with
  | zero => exact within_nil _ _
  | succ n ih =>
    refine Within.append (read32_within (Nat.le_refl p) (by omega)) (Within.append ?_ (within_nil _ _))
    exact (ih (p + 4) (by omega)).mono (Nat.le_add_right p 4) (Nat.le_refl hi)

/-! ## The packet -/

section Packet
variable (memory : Nat → UInt8) (length : Nat) (ptrExtensionMap : Option RtpHeaderExtensionMap) (header : RTPHeader)

/-- Where the contributing sources end. -/
def csrcEnd : Nat := 12 + (memory 0 &&& 0x0F).toNat * 4

/-- The length of the extension block in bytes. -/
def xLen : Nat := (UInt16.ofNat (Bytes.read16 (memory (csrcEnd memory + 2)) (memory (csrcEnd memory + 3)))).toNat * 4

/-- The header has an extension, and the extension lies in the packet. -/
def HasExtension : Prop :=
  12 ≤ length ∧ memory 0 >>> 6 = 2 ∧ memory 0 &&& 0x10 ≠ 0 ∧ csrcEnd memory + 4 + xLen memory ≤ length

/-- It is of the one-byte form. -/
def OneByte : Prop := UInt16.ofNat (Bytes.read16 (memory (csrcEnd memory)) (memory (csrcEnd memory + 1))) = 0xBEDE

/-- The parser stays inside the packet. -/
structure Contained : Prop where
  terminates : (parse memory length ptrExtensionMap header).val.isSome
  inside : ∀ a ∈ (parse memory length ptrExtensionMap header).log, a.pos < length
  values : ∀ p, .value p ∈ (parse memory length ptrExtensionMap header).log →
    HasExtension memory length ∧ csrcEnd memory + 4 ≤ p ∧ p < csrcEnd memory + 4 + xLen memory
  fits : ∀ h, (parse memory length ptrExtensionMap header).val = some (true, h) →
    h.headerLength + h.paddingLength ≤ length

/-- The value of every registered extension lies in the extension block. -/
def ElementsFit : Prop :=
  ∀ m, ptrExtensionMap = some m → HasExtension memory length → OneByte memory →
    ∀ p, ElementAt memory m (csrcEnd memory + 4 + xLen memory) (csrcEnd memory + 4) p →
      FitsAt memory m (csrcEnd memory + 4 + xLen memory) p

/-- The header without its extension. -/
def fixedHeader : RTPHeader where
  markerBit := decide (memory 1 &&& 0x80 ≠ 0)
  payloadType := memory 1 &&& 0x7F
  sequenceNumber := (read16 memory 2).val
  timestamp := (read32 memory 4).val
  ssrc := (read32 memory 8).val
  numCSRCs := (memory 0 &&& 0x0F).toNat
  arrOfCSRCs := (readCsrcs memory (memory 0 &&& 0x0F).toNat 12).val ++ header.arrOfCSRCs.drop (memory 0 &&& 0x0F).toNat
  paddingLength := if memory 0 &&& 0x20 ≠ 0 then (memory (length - 1)).toNat else 0
  headerLength := csrcEnd memory
  payloadTypeFrequency := header.payloadTypeFrequency
  extension := header.extension.reset

end Packet

variable {length : Nat} {ptrExtensionMap : Option RtpHeaderExtensionMap} {header : RTPHeader}

theorem finish_fits (h : RTPHeader) (hh : finish length header = (true, h)) :
    h.headerLength + h.paddingLength ≤ length := by
  simp only [finish, Prod.mk.injEq, Bool.not_eq_true', decide_eq_false_iff_not, Nat.not_lt] at hh
  obtain ⟨hle, rfl⟩ := hh
  exact hle

/-- When the extension is parsed, what is returned depends on what is left of the packet. -/
theorem parseExtension_fits (hdr : RTPHeader) (p : Nat) (h : RTPHeader)
    (hh : (parseExtension memory length ptrExtensionMap hdr p).val =
    some (true, h)) : h.headerLength + h.paddingLength ≤ length := by
  unfold parseExtension at hh
  dsimp only at hh
  split at hh
  · simp at hh
  · simp only [Reads.val_bind] at hh
    split at hh
    · simp at hh
    · simp only [Reads.val_bind, Reads.val_pure, Option.map_eq_some_iff] at hh
      obtain ⟨e, -, he⟩ := hh
      exact finish_fits h he

/-- What an extension that lies in the packet makes the parser read. -/
theorem parseExtension_block (hin : csrcEnd memory + 4 + xLen memory ≤ length) (hdr : RTPHeader) :
    let r := parseExtension memory length ptrExtensionMap hdr (csrcEnd memory)
    r.val.isSome ∧ OctetsWithin (csrcEnd memory) length r.log ∧
      (∀ q, .value q ∈ r.log → csrcEnd memory + 4 ≤ q) ∧
      (ValuesBefore (csrcEnd memory + 4 + xLen memory) r.log ↔ ∀ m, ptrExtensionMap = some m → OneByte memory →
        ∀ p, ElementAt memory m (csrcEnd memory + 4 + xLen memory) (csrcEnd memory + 4) p →
          FitsAt memory m (csrcEnd memory + 4 + xLen memory) p) := by
  have hprofile : Within (csrcEnd memory) (csrcEnd memory + 4) (read16 memory (csrcEnd memory)).log :=
    read16_within (Nat.le_refl _) (by omega)
  have hwords : Within (csrcEnd memory) (csrcEnd memory + 4) (read16 memory (csrcEnd memory + 2)).log :=
    read16_within (by omega) (by omega)
  have hval : (read16 memory (csrcEnd memory + 2)).val.toNat * 4 = xLen memory := rfl
  have hone : (read16 memory (csrcEnd memory)).val = 0xBEDE ↔ OneByte memory := Iff.rfl
  have hremain : ¬ length - csrcEnd memory < 4 := by omega
  have hremain' : ¬ length - csrcEnd memory < 4 + xLen memory := by omega
  unfold parseExtension
  dsimp only
  rw [if_neg hremain]
  simp only [Reads.val_bind, Reads.log_bind, hval, if_neg hremain']
  have hhead := hprofile.append hwords
  have hheadVals : ∀ q, Access.value q ∉ (read16 memory (csrcEnd memory)).log ++
      (read16 memory (csrcEnd memory + 2)).log := by
    intro q hq
    simp [read16, octet] at hq
  have hskip : ∀ (e : Option RTPHeaderExtension) (f : RTPHeaderExtension → Bool × RTPHeader), e.isSome = true →
      ((e.map f)).isSome = true := by
    intro e f h
    rw [Option.isSome_map]
    exact h
  by_cases hb : OneByte memory
  · rw [if_pos (hone.2 hb)]
    cases ptrExtensionMap with
    | none =>
      simp only [Reads.val_pure, Reads.log_pure, List.append_nil]
      refine ⟨rfl, (hhead.mono (Nat.le_refl _) (by omega)).octets, fun q hq => absurd hq (hheadVals q), ?_⟩
      simp only [reduceCtorEq, false_implies, implies_true, iff_true]
      exact fun q hq => absurd hq (hheadVals q)
    | some m =>
      obtain ⟨hsome, hlog, hvalues⟩ := @parseOneByteExtensionHeader_log memory m (csrcEnd memory + 4 + xLen memory)
        (csrcEnd memory + 4 + xLen memory) (csrcEnd memory + 4) (by omega) hdr.extension
      simp only [Reads.val_pure, Reads.log_pure, List.append_nil]
      refine ⟨hskip _ _ hsome, ?_, ?_, ?_⟩
      · intro a ha
        rw [← List.append_assoc] at ha
        rcases List.mem_append.1 ha with ha | ha
        · exact (hhead.mono (Nat.le_refl _) (show csrcEnd memory + 4 ≤ length by omega)).octets a ha
        · obtain ⟨hlo, hhi⟩ := hlog a ha
          exact ⟨by omega, fun h => Nat.lt_of_lt_of_le (hhi h) hin⟩
      · intro q hq
        rw [← List.append_assoc] at hq
        rcases List.mem_append.1 hq with hq | hq
        · exact absurd hq (hheadVals q)
        · exact (hlog _ hq).1
      · rw [← List.append_assoc, valuesBefore_append]
        have hnone : ValuesBefore (csrcEnd memory + 4 + xLen memory)
            ((read16 memory (csrcEnd memory)).log ++ (read16 memory (csrcEnd memory + 2)).log) :=
          fun q hq => absurd hq (hheadVals q)
        simp only [hnone, true_and, hvalues, Option.some.injEq, hb, forall_const]
        exact ⟨fun h m' hm' => hm' ▸ h, fun h => h m rfl⟩
  · rw [if_neg (fun h => hb (hone.1 h))]
    simp only [Reads.val_pure, Reads.log_pure, List.append_nil]
    refine ⟨rfl, (hhead.mono (Nat.le_refl _) (by omega)).octets, fun q hq => absurd hq (hheadVals q), ?_⟩
    simp only [hb, false_implies, implies_true, iff_true]
    exact fun q hq => absurd hq (hheadVals q)

/-- A header without extension that fits is not looked into. -/
theorem parseExtension_short (hin : ¬ csrcEnd memory + 4 + xLen memory ≤ length)
    (hp : csrcEnd memory ≤ length) (hdr : RTPHeader) :
    let r := parseExtension memory length ptrExtensionMap hdr (csrcEnd memory)
    Within 0 length r.log ∧ (∀ q, .value q ∉ r.log) ∧ ∃ h, r.val = some (false, h) := by
  unfold parseExtension
  dsimp only
  by_cases hremain : length - csrcEnd memory < 4
  · rw [if_pos hremain]
    exact ⟨within_nil _ _, by simp, _, rfl⟩
  · have hval : (read16 memory (csrcEnd memory + 2)).val.toNat * 4 = xLen memory := rfl
    have hremain' : length - csrcEnd memory < 4 + xLen memory := by omega
    rw [if_neg hremain]
    simp only [Reads.val_bind, Reads.log_bind, hval, if_pos hremain']
    refine ⟨?_, ?_, _, rfl⟩
    · exact (read16_within (Nat.zero_le _) (by omega)).append
        ((read16_within (Nat.zero_le _) (by omega)).append (within_nil _ _))
    · intro q hq
      simp [read16, octet] at hq

/-- What the parser returns. -/
theorem parse_val : (parse memory length ptrExtensionMap header).val =
    if length < 12 then some (false, header)
    else if memory 0 >>> 6 ≠ 2 then some (false, header)
    else if csrcEnd memory > length then some (false, header)
    else if memory 0 &&& 0x10 ≠ 0 then
      (parseExtension memory length ptrExtensionMap (fixedHeader memory length header) (csrcEnd memory)).val
    else some (finish length (fixedHeader memory length header)) := by
  have hval : ∀ {α : Type} (c : Prop) [Decidable c] (x y : Reads α), (if c then x else y).val =
      if c then x.val else y.val := by
    intro α c _ x y
    split <;> rfl
  unfold parse
  simp only [hval, Reads.val_bind, Reads.val_pure]
  rfl

theorem readCsrcs_values (n p q : Nat) : Access.value q ∉ (readCsrcs memory n p).log := by
  induction n generalizing p with
  | zero => simp [readCsrcs]
  | succ n ih => simpa [readCsrcs, read32, octet] using ih (p + 4)

/-- What it reads, but for the extension. -/
theorem parse_log : ∃ pre : List Access, Within 0 length pre ∧ (∀ q, Access.value q ∉ pre) ∧
    (parse memory length ptrExtensionMap header).log = pre ++
      if 12 ≤ length ∧ memory 0 >>> 6 = 2 ∧ csrcEnd memory ≤ length ∧ memory 0 &&& 0x10 ≠ 0 then
        (parseExtension memory length ptrExtensionMap (fixedHeader memory length header) (csrcEnd memory)).log
      else [] := by
  unfold parse
  by_cases h12 : length < 12
  · rw [if_pos h12, if_neg (by omega)]
    exact ⟨[], within_nil _ _, by simp, rfl⟩
  rw [if_neg h12]
  have hfirst : Within 0 length ((octet memory 0).log ++ ((octet memory 1).log ++ ((read16 memory 2).log ++
      ((read32 memory 4).log ++ (read32 memory 8).log)))) := by
    refine (within_octet (Nat.le_refl 0) (by omega)).append ((within_octet (by omega) (by omega)).append ?_)
    refine (read16_within (by omega) (by omega)).append ?_
    exact (read32_within (by omega) (by omega)).append (read32_within (by omega) (by omega))
  have hfirstVals : ∀ q, Access.value q ∉ ((octet memory 0).log ++ ((octet memory 1).log ++ ((read16 memory 2).log ++
      ((read32 memory 4).log ++ (read32 memory 8).log)))) := by
    intro q hq
    simp [read16, read32, octet] at hq
  have hb0 : (octet memory 0).val = memory 0 := rfl
  simp only [Reads.log_bind, hb0]
  by_cases hversion : memory 0 >>> 6 ≠ 2
  · refine ⟨_, hfirst, hfirstVals, ?_⟩
    rw [if_pos hversion, if_neg (fun h => hversion h.2.1)]
    simp only [Reads.log_pure, List.append_nil]
  by_cases hcsrc : 12 + (memory 0 &&& 0x0F).toNat * 4 > length
  · refine ⟨_, hfirst, hfirstVals, ?_⟩
    rw [if_neg hversion, if_pos hcsrc, if_neg (fun h => absurd h.2.2.1 (Nat.not_le.2 hcsrc))]
    simp only [Reads.log_pure, List.append_nil]
  rw [if_neg hversion, if_neg hcsrc]
  -- The last byte is read for the padding, then the contributing sources.
  simp only [Reads.log_bind]
  have hpad : ∀ padding : Reads Nat, (if memory 0 &&& 0x20 ≠ 0 then do
        let last ← octet memory (length - 1)
        return last.toNat
      else pure 0) = padding →
      Within 0 length padding.log ∧ (∀ q, Access.value q ∉ padding.log) ∧
        padding.val = if memory 0 &&& 0x20 ≠ 0 then (memory (length - 1)).toNat else 0 := by
    rintro _ rfl
    by_cases hp : memory 0 &&& 0x20 ≠ 0
    · rw [if_pos hp, if_pos hp]
      refine ⟨(within_octet (Nat.zero_le _) (by omega)).append (within_nil _ _), ?_, rfl⟩
      simp [octet]
    · rw [if_neg hp, if_neg hp]
      exact ⟨within_nil _ _, by simp, rfl⟩
  generalize hpadding : (if memory 0 &&& 0x20 ≠ 0 then do
        let last ← octet memory (length - 1)
        return last.toNat
      else pure 0 : Reads Nat) = padding
  obtain ⟨hpad, hpadVals, hpadVal⟩ := hpad padding hpadding
  have hcsrcs : Within 0 length (readCsrcs memory (memory 0 &&& 0x0F).toNat 12).log :=
    (readCsrcs_within _ 12 (Nat.not_lt.1 hcsrc)).mono (Nat.zero_le _) (Nat.le_refl _)
  refine ⟨_, hfirst.append (hpad.append hcsrcs), ?_, ?_⟩
  · intro q hq
    rcases List.mem_append.1 hq with hq | hq
    · exact hfirstVals q hq
    · rcases List.mem_append.1 hq with hq | hq
      · exact hpadVals q hq
      · exact readCsrcs_values _ _ _ hq
  · have hle : 12 ≤ length ∧ memory 0 >>> 6 = 2 ∧ csrcEnd memory ≤ length :=
      ⟨Nat.not_lt.1 h12, not_not.1 hversion, Nat.not_lt.1 hcsrc⟩
    rw [fixedHeader, ← hpadVal]
    by_cases hx : memory 0 &&& 0x10 ≠ 0
    · rw [if_pos hx, if_pos ⟨hle.1, hle.2.1, hle.2.2, hx⟩]
      simp only [List.append_assoc]
      rfl
    · rw [if_neg hx, if_neg (fun h => hx h.2.2.2)]
      simp only [List.append_assoc, Reads.log_pure, List.append_nil]

/-- **The parser stays inside the packet** exactly when the value of every registered extension lies in
the extension block. -/
theorem contained_iff (memory : Nat → UInt8) (length : Nat)
    (ptrExtensionMap : Option RtpHeaderExtensionMap) (header : RTPHeader) :
    Contained memory length ptrExtensionMap header ↔ ElementsFit memory length ptrExtensionMap := by
  obtain ⟨pre, hpre, hpreVals, hlog⟩ := @parse_log memory length ptrExtensionMap header
  have hval := @parse_val memory length ptrExtensionMap header
  by_cases hin : HasExtension memory length
  · obtain ⟨h12, hversion, hx, hblock⟩ := hin
    have hcsrc : csrcEnd memory ≤ length := by omega
    obtain ⟨hsome, hoctets, hlow, hvalues⟩ := @parseExtension_block memory length ptrExtensionMap hblock
      (fixedHeader memory length header)
    have hfits := @parseExtension_fits memory length ptrExtensionMap (fixedHeader memory length header) (csrcEnd memory)
    rw [if_neg (Nat.not_lt.2 h12), if_neg (not_not.2 hversion), if_neg (Nat.not_lt.2 hcsrc), if_pos hx] at hval
    rw [if_pos ⟨h12, hversion, hcsrc, hx⟩] at hlog
    generalize parseExtension memory length ptrExtensionMap (fixedHeader memory length header) (csrcEnd memory) = r
      at hval hlog hsome hoctets hlow hvalues hfits
    have hall : ElementsFit memory length ptrExtensionMap ↔ ValuesBefore (csrcEnd memory + 4 + xLen memory) r.log := by
      rw [hvalues, ElementsFit]
      exact forall_congr' fun m => imp_congr Iff.rfl ⟨fun h => h ⟨h12, hversion, hx, hblock⟩, fun h _ => h⟩
    rw [hall]
    constructor
    · intro h q hq
      exact (h.values q (hlog ▸ List.mem_append_right _ hq)).2.2
    · intro h
      refine ⟨hval ▸ hsome, ?_, ?_, fun hdr hhdr => hfits hdr (hval ▸ hhdr)⟩
      · intro a ha
        rw [hlog] at ha
        rcases List.mem_append.1 ha with ha | ha
        · exact (hpre a ha).2
        · cases a with
          | octet q => exact (hoctets _ ha).2 rfl
          | value q =>
            have hlt := h q ha
            simp only [Access.pos]
            omega
      · intro q hq
        rw [hlog] at hq
        rcases List.mem_append.1 hq with hq | hq
        · exact absurd hq (hpreVals q)
        · exact ⟨⟨h12, hversion, hx, hblock⟩, hlow q hq, h q hq⟩
  · -- Nothing is looked into: both hold.
    have hfit : ElementsFit memory length ptrExtensionMap := fun _ _ h => absurd h hin
    refine ⟨fun _ => hfit, fun _ => ?_⟩
    by_cases hext : 12 ≤ length ∧ memory 0 >>> 6 = 2 ∧ csrcEnd memory ≤ length ∧ memory 0 &&& 0x10 ≠ 0
    · obtain ⟨h12, hversion, hcsrc, hx⟩ := hext
      have hshort : ¬ csrcEnd memory + 4 + xLen memory ≤ length := fun h => hin ⟨h12, hversion, hx, h⟩
      obtain ⟨hwithin, hnone, h, hres⟩ := @parseExtension_short memory length ptrExtensionMap hshort hcsrc
        (fixedHeader memory length header)
      rw [if_neg (Nat.not_lt.2 h12), if_neg (not_not.2 hversion), if_neg (Nat.not_lt.2 hcsrc), if_pos hx, hres] at hval
      rw [if_pos ⟨h12, hversion, hcsrc, hx⟩] at hlog
      refine ⟨by rw [hval]; rfl, ?_, ?_, ?_⟩
      · intro a ha
        rw [hlog] at ha
        exact (hpre.append hwithin a ha).2
      · intro q hq
        rw [hlog] at hq
        rcases List.mem_append.1 hq with hq | hq
        · exact absurd hq (hpreVals q)
        · exact absurd hq (hnone q)
      · intro hdr hhdr
        rw [hval] at hhdr
        simp at hhdr
    · rw [if_neg hext, List.append_nil] at hlog
      refine ⟨?_, ?_, ?_, ?_⟩
      · rw [hval]
        by_cases h1 : length < 12
        · rw [if_pos h1]; rfl
        · by_cases h2 : memory 0 >>> 6 ≠ 2
          · rw [if_neg h1, if_pos h2]; rfl
          · by_cases h3 : csrcEnd memory > length
            · rw [if_neg h1, if_neg h2, if_pos h3]; rfl
            · rw [if_neg h1, if_neg h2, if_neg h3, if_neg (fun h4 => hext ⟨by omega, not_not.1 h2, by omega, h4⟩)]
              rfl
      · intro a ha
        exact (hpre a (hlog ▸ ha)).2
      · intro q hq
        exact absurd (hlog ▸ hq) (hpreVals q)
      · intro hdr hhdr
        rw [hval] at hhdr
        split at hhdr
        · simp at hhdr
        · split at hhdr
          · simp at hhdr
          · split at hhdr
            · simp at hhdr
            · rw [if_neg (fun h4 => hext ⟨by omega, not_not.1 ‹_›, by omega, h4⟩)] at hhdr
              exact finish_fits hdr (Option.some.inj hhdr)

/-- A packet without payload: in the last byte of its extension block a transmission time offset begins. -/
def overhanging : List UInt8 := [0x90, 0, 0, 1, 0, 0, 0, 0, 0, 0, 0, 1, 0xBE, 0xDE, 0, 1, 0, 0, 0, 0x12]

def offsetMap : RtpHeaderExtensionMap := ⟨[⟨1, .transmissionTimeOffset, true⟩], by decide, by decide⟩

theorem overhanging_not_contained :
    ¬ ∀ (memory : Nat → UInt8) (length : Nat) (ptrExtensionMap : Option RtpHeaderExtensionMap) (header : RTPHeader),
      Contained memory length ptrExtensionMap header := by
  intro h
  have hlt := (h (Bytes.byteAt overhanging) 20 (some offsetMap) .empty).inside (.value 20) (by decide)
  exact absurd hlt (by decide)

end WebRtc.Rtp
