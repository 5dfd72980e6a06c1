import WebRtc.Stun.Integrity

/-!
# Where attributes begin

For the grammar an attribute ends where its length, rounded up to a multiple of 4, says (`Tlv`). `Read` leaves it to
the class of the attribute how many bytes are taken: the two agree as long as attributes of a fixed size are announced
with it, no length is so large that rounding it up wraps, and the last attribute has all of its padding.
-/

namespace WebRtc.Stun

open Bytes Reader

/-- The headers that the loop of `Read` reads in the last bytes of a message of `size`. -/
def headersRead (cls : MessageClass) (owner : TransactionId) (size : Nat) : Nat → List UInt8 → Option (List Nat)
  | 0, buf => if buf.length ≤ 0 then some [] else none
  | fuel + 1, buf =>
    if buf.length ≤ 0 then some []
    else do
      let (_, rest) ← (readAttribute cls owner).run buf
      let positions ← headersRead cls owner size fuel rest
      return (size - buf.length) :: positions

/-- The positions of the headers that `Read` reads. -/
def attributeHeaders (cls : MessageClass) (buf : List UInt8) : Option (List Nat) := do
  let m ← StunMessage.read cls buf
  headersRead cls m.transactionId buf.length (buf.length - kStunHeaderSize) (buf.drop kStunHeaderSize)

section Grammar
variable (buf : List UInt8)

/-- Where the next attribute begins. -/
def nextAttribute (p : Nat) : Nat := p + kStunAttributeHeaderSize + padded (read16At buf (p + 2)).toNat

/-- Attributes at these positions, one after the other, from `p` to the end. -/
inductive Tlv : Nat → List Nat → Prop
  | done : Tlv buf.length []
  | next {p : Nat} {positions : List Nat} (inside : p < buf.length) (rest : Tlv (nextAttribute buf p) positions) :
      Tlv p (p :: positions)

/-- By the grammar an attribute begins at `q`, if one begins at `p`. -/
inductive AttributeAt : Nat → Nat → Prop
  | here {p : Nat} (inside : p < buf.length) : AttributeAt p p
  | later {p q : Nat} (inside : p < buf.length) (rest : AttributeAt (nextAttribute buf p) q) : AttributeAt p q

/-- `length` stands in the header of an attribute that takes as many bytes. -/
def ValueType.Announced (length : Nat) : ValueType → Prop
  | .uint32 => padded length = 4
  | .uint64 => padded length = 8
  | .unknown => length ≤ 65532
  | _ => True

/-- What the message says about the size of the attribute is what `Read` makes of it. -/
def Announced (cls : MessageClass) (p : Nat) : Prop :=
  (cls.getAttributeValueType (read16At buf p)).Announced (read16At buf (p + 2)).toNat

end Grammar

/-! ## One attribute -/

section Attribute
variable {buf rest : List UInt8} {cls : MessageClass} {owner : TransactionId} {length : UInt16}

/-- How many of the `left` bytes behind the header are taken. -/
inductive Size (length left : Nat) : ValueType → Nat → Prop
  | fixed32 : Size length left .uint32 4
  | fixed64 : Size length left .uint64 8
  | skipped : Size length left .unknown (padded length % 65536)
  | full {type : ValueType} (known : type ≠ .uint32 ∧ type ≠ .uint64 ∧ type ≠ .unknown) :
    Size length left type (padded length)
  | short {type : ValueType} (known : type ≠ .uint32 ∧ type ≠ .uint64 ∧ type ≠ .unknown)
    (missing : left < padded length) :
      Size length left type length

theorem padded_le (n : Nat) : n ≤ padded n ∧ padded n < n + 4 := by
  unfold padded
  split <;> omega

/-- All of the padding is there when the message ends at a multiple of 4. -/
theorem Size.announced_iff {kind : ValueType} {len left n : Nat} (h : Size len left kind n) (hlen : len < 65536)
    (hfits : n ≤ left) (hleft : left % 4 = 0) : n = padded len ↔ kind.Announced len := by
  have hmod := padded_mod len
  obtain ⟨hle, hlt⟩ := padded_le len
  cases h with
  | fixed32 => exact eq_comm
  | fixed64 => exact eq_comm
  | skipped =>
    unfold ValueType.Announced
    dsimp only
    omega
  | full known => exact iff_of_true rfl (by cases kind <;> trivial)
  | short known missing => omega

theorem took_padding {n : Nat} {mid : List UInt8} (htook : Took buf mid n) (hn : n = length.toNat) {a : Unit}
    (h : (consumePadding length).run mid = some (a, rest)) :
    Took buf rest (padded length.toNat) ∨ Took buf rest length.toNat ∧ buf.length < padded length.toNat := by
  subst hn
  unfold consumePadding at h
  dsimp only at h
  by_cases hmod : 0 < length.toNat % 4
  · have hpadded : padded length.toNat = length.toNat + (4 - length.toNat % 4) := if_pos (Nat.ne_of_gt hmod)
    rw [if_pos hmod] at h
    change ((consume (4 - length.toNat % 4)).run mid).orElse (fun _ => some ((), mid)) = _ at h
    cases hconsume : (consume (4 - length.toNat % 4)).run mid with
    | some result =>
      obtain ⟨u, after⟩ := result
      rw [hconsume] at h
      obtain ⟨-, rfl⟩ := Prod.mk.inj (Option.some.inj h)
      rw [hpadded]
      exact Or.inl (htook.trans (Took.of_consume hconsume))
    | none =>
      rw [hconsume] at h
      obtain ⟨-, rfl⟩ := Prod.mk.inj (Option.some.inj h)
      refine Or.inr ⟨htook, ?_⟩
      have hfew := Took.short_of_consume hconsume
      have hlen := htook.length
      omega
  · have hpadded : padded length.toNat = length.toNat := if_neg (by omega)
    rw [if_neg hmod] at h
    obtain rfl := Took.of_pure h
    rw [hpadded]
    exact Or.inl htook

theorem took_address {result : IPAddress × UInt16} (h : (readAddress length).run buf = some (result, rest)) :
    Took buf rest (padded length.toNat) := by
  unfold readAddress at h
  obtain ⟨_, afterDummy, hdummy, h⟩ := Took.of_bind h
  obtain ⟨family, afterFamily, hfamily, h⟩ := Took.of_bind h
  obtain ⟨port, afterPort, hport, h⟩ := Took.of_bind h
  have hfour := ((Took.of_readUInt8 hdummy).trans (Took.of_readUInt8 hfamily)).trans (Took.of_readUInt16 hport).1
  split at h
  · by_cases hlength : length = 8
    · rw [if_neg (not_not.2 hlength)] at h
      have hpadded : padded length.toNat = 4 + 4 := by rw [hlength]; rfl
      rw [hpadded]
      exact hfour.trans (Took.of_map (fun _ _ hv => Took.of_readVector hv) h)
    · rw [if_pos hlength] at h
      cases h
  · split at h
    · by_cases hlength : length = 20
      · rw [if_neg (not_not.2 hlength)] at h
        have hpadded : padded length.toNat = 4 + 16 := by rw [hlength]; rfl
        rw [hpadded]
        exact hfour.trans (Took.of_map (fun _ _ hv => Took.of_readVector hv) h)
      · rw [if_pos hlength] at h
        cases h
    · cases h

theorem took_errorCode {value : Value} (h : (readErrorCode length).run buf = some (value, rest)) :
    Took buf rest (padded length.toNat) ∨ Took buf rest length.toNat ∧ buf.length < padded length.toNat := by
  unfold readErrorCode at h
  by_cases hshort : length < 4
  · rw [if_pos hshort] at h
    cases h
  · rw [if_neg hshort] at h
    have hfour : 4 ≤ length.toNat := by
      rw [UInt16.lt_iff_toNat_lt] at hshort
      exact Nat.not_lt.1 hshort
    obtain ⟨val, afterVal, hval, h⟩ := Took.of_bind h
    obtain ⟨reason, afterReason, hreason, h⟩ := Took.of_bind h
    obtain ⟨_, afterPadding, hpadding, h⟩ := Took.of_bind h
    obtain ⟨-, rfl⟩ := Prod.mk.inj (Option.some.inj h)
    exact took_padding ((Took.of_readUInt32 hval).trans (Took.of_readBytes hreason).1) (by omega) hpadding

theorem took_uint16List {value : Value} (h : (readUInt16List length).run buf = some (value, rest)) :
    Took buf rest (padded length.toNat) ∨ Took buf rest length.toNat ∧ buf.length < padded length.toNat := by
  unfold readUInt16List at h
  by_cases hodd : length.toNat % 2 ≠ 0
  · rw [if_pos hodd] at h
    cases h
  · rw [if_neg hodd] at h
    obtain ⟨attrTypes, afterTypes, htypes, h⟩ := Took.of_bind h
    obtain ⟨_, afterPadding, hpadding, h⟩ := Took.of_bind h
    obtain ⟨-, rfl⟩ := Prod.mk.inj (Option.some.inj h)
    exact took_padding (Took.of_times (fun _ _ _ hread => (Took.of_readUInt16 hread).1) htypes) (by omega) hpadding

theorem skipped_toNat (length : UInt16) : (skipped length).toNat = padded length.toNat % 65536 := by
  have hlt := length.toNat_lt
  unfold skipped padded
  split
  · rw [UInt16.toNat_add, UInt16.toNat_ofNat']
    omega
  · omega

/-- **What an attribute takes**, header and value. -/
theorem took_attribute {attr : Option StunAttribute} (h : (readAttribute cls owner).run buf = some (attr, rest)) :
    ∃ n, Size (read16At buf 2).toNat (buf.length - kStunAttributeHeaderSize)
      (cls.getAttributeValueType (read16At buf 0)) n ∧ Took buf rest (kStunAttributeHeaderSize + n) := by
  unfold readAttribute at h
  obtain ⟨attrType, afterType, htype, h⟩ := Took.of_bind h
  obtain ⟨attrLength, mid, hlength, h⟩ := Took.of_bind h
  obtain ⟨htookType, rfl⟩ := Took.of_readUInt16 htype
  obtain ⟨htookLength, rfl⟩ := Took.of_readUInt16 hlength
  have hheader : Took buf mid kStunAttributeHeaderSize := htookType.trans htookLength
  have hleft : mid.length = buf.length - kStunAttributeHeaderSize := Nat.eq_sub_of_add_eq hheader.length
  have hlengthAt : read16At afterType 0 = read16At buf 2 := by rw [htookType.rest, read16At_drop]
  rw [hlengthAt] at h
  rw [← hleft]
  generalize hkind : cls.getAttributeValueType (read16At buf 0) = kind at h ⊢
  -- What is read behind the header, with or without all of the padding.
  have hvalue {n : Nat} (hsize : Size (read16At buf 2).toNat mid.length kind n) (htook : Took mid rest n) :
      ∃ n, Size (read16At buf 2).toNat mid.length kind n ∧ Took buf rest (kStunAttributeHeaderSize + n) :=
    ⟨n, hsize, hheader.trans htook⟩
  have hpadding (hknown : kind ≠ .uint32 ∧ kind ≠ .uint64 ∧ kind ≠ .unknown)
      (htook : Took mid rest (padded (read16At buf 2).toNat) ∨
        Took mid rest (read16At buf 2).toNat ∧ mid.length < padded (read16At buf 2).toNat) :
      ∃ n, Size (read16At buf 2).toNat mid.length kind n ∧ Took buf rest (kStunAttributeHeaderSize + n) := by
    rcases htook with htook | ⟨htook, hmissing⟩
    · exact hvalue (.full hknown) htook
    · exact hvalue (.short hknown hmissing) htook
  cases kind with
  | unknown =>
    obtain ⟨_, afterValue, hskip, h⟩ := Took.of_bind h
    obtain ⟨-, rfl⟩ := Prod.mk.inj (Option.some.inj h)
    have htook := Took.of_consume hskip
    rw [skipped_toNat] at htook
    exact hvalue .skipped htook
  | address =>
    obtain ⟨value, afterValue, hread, h⟩ := Took.of_bind h
    obtain ⟨-, rfl⟩ := Prod.mk.inj (Option.some.inj h)
    exact hpadding (by decide) (Or.inl (Took.of_map (fun _ _ hv => took_address hv) hread))
  | xorAddress =>
    obtain ⟨value, afterValue, hread, h⟩ := Took.of_bind h
    obtain ⟨-, rfl⟩ := Prod.mk.inj (Option.some.inj h)
    exact hpadding (by decide) (Or.inl (Took.of_map (fun _ _ hv => took_address hv) hread))
  | uint32 =>
    obtain ⟨value, afterValue, hread, h⟩ := Took.of_bind h
    obtain ⟨-, rfl⟩ := Prod.mk.inj (Option.some.inj h)
    exact hvalue .fixed32 (Took.of_map (fun _ _ hv => Took.of_readUInt32 hv) hread)
  | uint64 =>
    obtain ⟨value, afterValue, hread, h⟩ := Took.of_bind h
    obtain ⟨-, rfl⟩ := Prod.mk.inj (Option.some.inj h)
    exact hvalue .fixed64 (Took.of_map (fun _ _ hv => Took.of_readUInt64 hv) hread)
  | byteString =>
    obtain ⟨value, afterValue, hread, h⟩ := Took.of_bind h
    obtain ⟨-, rfl⟩ := Prod.mk.inj (Option.some.inj h)
    obtain ⟨bytes, afterBytes, hbytes, hread⟩ := Took.of_bind hread
    obtain ⟨_, afterPadding, hconsume, hread⟩ := Took.of_bind hread
    obtain ⟨-, rfl⟩ := Prod.mk.inj (Option.some.inj hread)
    exact hpadding (by decide) (took_padding (Took.of_readBytes hbytes).1 rfl hconsume)
  | errorCode =>
    obtain ⟨value, afterValue, hread, h⟩ := Took.of_bind h
    obtain ⟨-, rfl⟩ := Prod.mk.inj (Option.some.inj h)
    exact hpadding (by decide) (took_errorCode hread)
  | uint16List =>
    obtain ⟨value, afterValue, hread, h⟩ := Took.of_bind h
    obtain ⟨-, rfl⟩ := Prod.mk.inj (Option.some.inj h)
    exact hpadding (by decide) (took_uint16List hread)

end Attribute

/-! ## The loop -/

section Loop
variable {buf : List UInt8} {cls : MessageClass} {owner : TransactionId} {p q fuel : Nat} {positions : List Nat}

theorem nextAttribute_mod (buf : List UInt8) (p : Nat) : nextAttribute buf p % 4 = p % 4 := by
  have hmod := padded_mod (read16At buf (p + 2)).toNat
  unfold nextAttribute kStunAttributeHeaderSize
  omega

theorem Tlv.mod (h : Tlv buf p positions) : buf.length % 4 = p % 4 := by
  induction h with
  | done => rfl
  | next inside rest ih => rw [ih, nextAttribute_mod]

/-- A loop that succeeds has read these headers. -/
theorem headersRead_some {attrs : List StunAttribute} {bytes rest : List UInt8} (size : Nat)
    (h : (readAttrs cls owner 0 fuel).run bytes = some (attrs, rest)) :
    ∃ positions, headersRead cls owner size fuel bytes = some positions := by
  induction fuel generalizing bytes attrs rest with
  | zero =>
    unfold headersRead
    by_cases hempty : bytes.length ≤ 0
    · exact ⟨[], if_pos hempty⟩
    · rw [readAttrs, StateT.run_bind, StateT.run_get] at h
      change (if _ then _ else _ : Reader _).run _ = _ at h
      rw [if_neg hempty] at h
      cases h
  | succ fuel ih =>
    unfold headersRead
    by_cases hempty : bytes.length ≤ 0
    · exact ⟨[], if_pos hempty⟩
    · rw [readAttrs, StateT.run_bind, StateT.run_get] at h
      change (if _ then _ else _ : Reader _).run _ = _ at h
      rw [if_neg hempty] at h ⊢
      obtain ⟨attr, mid, hattr, h⟩ := Took.of_bind h
      obtain ⟨more, after, hmore, h⟩ := Took.of_bind h
      obtain ⟨positions, hpositions⟩ := ih hmore
      rw [hattr]
      exact ⟨(size - bytes.length) :: positions, by simp [hpositions]⟩

/-- The headers that are read from `p` on: none at the end, else one at `p` and those behind what it takes. -/
theorem headersRead_cases (hp : p ≤ buf.length)
    (h : headersRead cls owner buf.length fuel (buf.drop p) = some positions) :
    p = buf.length ∧ positions = [] ∨
      p < buf.length ∧ ∃ n fuel' rest, Size (read16At buf (p + 2)).toNat (buf.length - (p + 4))
        (cls.getAttributeValueType (read16At buf p)) n ∧ p + 4 + n ≤ buf.length ∧
          headersRead cls owner buf.length fuel' (buf.drop (p + 4 + n)) = some rest ∧ positions = p :: rest := by
  have hlength : (buf.drop p).length = buf.length - p := List.length_drop
  by_cases hempty : (buf.drop p).length ≤ 0
  · left
    have hnil : headersRead cls owner buf.length fuel (buf.drop p) = some [] := by
      cases fuel <;> exact if_pos hempty
    rw [hnil] at h
    exact ⟨by omega, (Option.some.inj h).symm⟩
  · right
    cases fuel with
    | zero =>
      rw [headersRead, if_neg hempty] at h
      cases h
    | succ fuel =>
      rw [headersRead, if_neg hempty] at h
      obtain ⟨⟨attr, after⟩, hattr, h⟩ := Option.bind_eq_some_iff.1 h
      obtain ⟨rest, hrest, h⟩ := Option.bind_eq_some_iff.1 h
      obtain rfl := Option.some.inj h
      obtain ⟨n, hsize, htook⟩ := took_attribute hattr
      rw [read16At_drop, read16At_drop, hlength] at hsize
      have hle := htook.le
      rw [hlength] at hle
      have hafter : after = buf.drop (p + 4 + n) := by
        rw [htook.rest, List.drop_drop, ← Nat.add_assoc]
        rfl
      rw [hafter] at hrest
      unfold kStunAttributeHeaderSize at hle hsize
      have hleft : buf.length - p - 4 = buf.length - (p + 4) := Nat.sub_sub _ _ _
      rw [hleft] at hsize
      refine ⟨by omega, n, fuel, rest, hsize, by omega, hrest, ?_⟩
      have hposition : buf.length - (buf.drop p).length = p := by omega
      rw [hposition]

theorem headersRead_head {r : Nat} (hp : p ≤ buf.length) (hr : Tlv buf r positions)
    (h : headersRead cls owner buf.length fuel (buf.drop p) = some positions) : r = p := by
  rcases headersRead_cases hp h with ⟨rfl, rfl⟩ | ⟨hlt, n, fuel', rest, hsize, hle, hrest, rfl⟩
  · cases hr
    rfl
  · cases hr
    rfl

theorem Tlv.head {first : Nat} (h : Tlv buf p (first :: positions)) : p = first := by
  cases h
  rfl

/-- **The loop goes by the grammar** when the message ends at a multiple of 4 and all sizes are announced. -/
theorem tlv_iff (hp : p ≤ buf.length) (hmod : p % 4 = 0)
    (h : headersRead cls owner buf.length fuel (buf.drop p) = some positions) :
    Tlv buf p positions ↔ buf.length % 4 = 0 ∧ ∀ q, AttributeAt buf p q → Announced buf cls q := by
  induction positions generalizing p fuel with
  | nil =>
    rcases headersRead_cases hp h with ⟨rfl, -⟩ | ⟨-, n, fuel', rest, -, -, -, hcons⟩
    · refine iff_of_true .done ⟨hmod, fun q hq => ?_⟩
      cases hq with
      | here inside => exact absurd inside (Nat.lt_irrefl _)
      | later inside rest => exact absurd inside (Nat.lt_irrefl _)
    · cases hcons
  | cons first positions ih =>
    rcases headersRead_cases hp h with ⟨-, hnil⟩ | ⟨hlt, n, fuel', rest, hsize, hle, hrest, hcons⟩
    · cases hnil
    · obtain ⟨rfl, rfl⟩ := List.cons.inj hcons
      have hannounced (hend : buf.length % 4 = 0) : n = padded (read16At buf (first + 2)).toNat ↔
        Announced buf cls first :=
        hsize.announced_iff (UInt16.toNat_lt _) (by omega) (by omega)
      have hnext : nextAttribute buf first = first + 4 + n ↔ n = padded (read16At buf (first + 2)).toNat := by
        unfold nextAttribute kStunAttributeHeaderSize
        omega
      constructor
      · intro htlv
        have hend : buf.length % 4 = 0 := by rw [htlv.mod, hmod]
        cases htlv with
        | next inside htail =>
          have hsame := headersRead_head hle htail hrest
          have hmod' : (first + 4 + n) % 4 = 0 := by rw [← hsame, nextAttribute_mod, hmod]
          rw [hsame] at htail
          refine ⟨hend, fun q hq => ?_⟩
          cases hq with
          | here inside => exact (hannounced hend).1 (hnext.1 hsame)
          | later inside hlater =>
            rw [hsame] at hlater
            exact ((ih hle hmod' hrest).1 htail).2 q hlater
      · rintro ⟨hend, hall⟩
        have hsame := hnext.2 ((hannounced hend).2 (hall first (.here hlt)))
        have hmod' : (first + 4 + n) % 4 = 0 := by rw [← hsame, nextAttribute_mod, hmod]
        refine .next hlt ?_
        rw [hsame]
        refine (ih hle hmod' hrest).2 ⟨hend, fun q hq => hall q (.later hlt ?_)⟩
        rwa [hsame]

/-- `ValidateMessageIntegrity` reads the same headers, up to the first MESSAGE-INTEGRITY. -/
def SeenAlike (buf : List UInt8) (positions : List Nat) : Prop :=
  ∀ q, Walk buf kStunHeaderSize q ∧ q < buf.length ↔
    q ∈ positions ∧ ∀ r ∈ positions, r < q → read16At buf r ≠ messageIntegrity

theorem Tlv.le (h : Tlv buf p positions) : ∀ q ∈ positions, p ≤ q := by
  induction h with
  | done => exact fun q hq => absurd hq List.not_mem_nil
  | next inside rest ih =>
    intro q hq
    rcases List.mem_cons.1 hq with rfl | hq
    · exact Nat.le_refl _
    · have hle := ih q hq
      unfold nextAttribute at hle
      omega

theorem Tlv.walk_iff (h : Tlv buf p positions) :
    Walk buf p q ∧ q < buf.length ↔ q ∈ positions ∧ ∀ r ∈ positions, r < q → read16At buf r ≠ messageIntegrity := by
  induction h with
  | done =>
    refine iff_of_false ?_ fun h => absurd h.1 List.not_mem_nil
    rintro ⟨hwalk, hlt⟩
    exact absurd hwalk.mod.2 (Nat.not_le.2 hlt)
  | @next p positions inside rest ih =>
    have hgap : p < nextAttribute buf p := by
      unfold nextAttribute kStunAttributeHeaderSize
      omega
    have hlater {r : Nat} (hr : r ∈ positions) : p < r := Nat.lt_of_lt_of_le hgap (rest.le r hr)
    constructor
    · rintro ⟨hwalk, hlt⟩
      cases hwalk with
      | here =>
        refine ⟨List.mem_cons_self, fun r hr hrp => ?_⟩
        rcases List.mem_cons.1 hr with rfl | hr
        · exact absurd hrp (Nat.lt_irrefl _)
        · exact absurd hrp (Nat.lt_asymm (hlater hr))
      | skip other hrest =>
        obtain ⟨hmem, hall⟩ := ih.1 ⟨hrest, hlt⟩
        refine ⟨List.mem_cons_of_mem _ hmem, fun r hr hrq => ?_⟩
        rcases List.mem_cons.1 hr with rfl | hr
        · exact other
        · exact hall r hr hrq
    · rintro ⟨hmem, hall⟩
      rcases List.mem_cons.1 hmem with rfl | hmem
      · exact ⟨.here _, inside⟩
      · have hrest := ih.2 ⟨hmem, fun r hr => hall r (List.mem_cons_of_mem _ hr)⟩
        exact ⟨.skip (hall p List.mem_cons_self (hlater hmem)) hrest.1, hrest.2⟩

theorem read_some {m : StunMessage} (h : StunMessage.read cls buf = some m) :
    kStunHeaderSize ≤ buf.length ∧ ∃ rest, (readAttrs cls m.transactionId 0 (buf.length - kStunHeaderSize)).run
      (buf.drop kStunHeaderSize) = some (m.attrs, rest) := by
  obtain ⟨⟨_, after⟩, hrun, rfl⟩ := Option.map_eq_some_iff.1 h
  unfold StunMessage.reader at hrun
  obtain ⟨type, afterType, htype, hrun⟩ := Took.of_bind hrun
  by_cases htop : type &&& 0x8000 ≠ 0
  · rw [if_pos htop] at hrun
    cases hrun
  rw [if_neg htop] at hrun
  obtain ⟨length, afterLength, hlength, hrun⟩ := Took.of_bind hrun
  obtain ⟨cookie, afterCookie, hcookie, hrun⟩ := Took.of_bind hrun
  obtain ⟨id, attrData, hid, hrun⟩ := Took.of_bind hrun
  have htook : Took buf attrData kStunHeaderSize :=
    (((Took.of_readUInt16 htype).1.trans (Took.of_readUInt16 hlength).1).trans (Took.of_readVector hcookie)).trans
      (Took.of_readVector hid)
  rw [StateT.run_bind, StateT.run_get] at hrun
  change (if _ then _ else _ : Reader _).run _ = _ at hrun
  by_cases hleft : length.toNat = attrData.length
  · rw [if_neg (not_not.2 hleft), hleft, Nat.sub_self] at hrun
    obtain ⟨attrs, rest, hattrs, hrun⟩ := Took.of_bind hrun
    obtain ⟨rfl, -⟩ := Prod.mk.inj (Option.some.inj hrun)
    have hsize : attrData.length = buf.length - kStunHeaderSize := Nat.eq_sub_of_add_eq htook.length
    rw [hsize, htook.rest] at hattrs
    exact ⟨htook.le, rest, hattrs⟩
  · rw [if_pos hleft] at hrun
    cases hrun

/-- **When the headers are those of the grammar**, and of the message that is authenticated. -/
theorem attributeHeaders_exact (cls : MessageClass) (buf : List UInt8) (hread : (StunMessage.read cls buf).isSome) :
    ∃ positions, attributeHeaders cls buf = some positions ∧
      (Tlv buf kStunHeaderSize positions ∧ SeenAlike buf positions ↔
        buf.length % 4 = 0 ∧ ∀ q, AttributeAt buf kStunHeaderSize q → Announced buf cls q) := by
  obtain ⟨m, hm⟩ := Option.isSome_iff_exists.1 hread
  obtain ⟨hlong, rest, hattrs⟩ := read_some hm
  obtain ⟨positions, hpositions⟩ := headersRead_some buf.length hattrs
  refine ⟨positions, ?_, ?_⟩
  · rw [attributeHeaders, hm]
    exact hpositions
  · rw [← tlv_iff hlong rfl hpositions]
    exact and_iff_left_of_imp fun htlv q => htlv.walk_iff

/-- USERNAME with four characters. -/
def usernameMessage : List UInt8 :=
  [0, 1, 0, 8, 0x21, 0x12, 0xA4, 0x42] ++ List.replicate 12 7 ++ [0, 6, 0, 4, 97, 98, 99, 100]

/-- PRIORITY that is announced with 8 bytes; the last four are the header of USE-CANDIDATE. -/
def longPriority : List UInt8 :=
  [0, 1, 0, 12, 0x21, 0x12, 0xA4, 0x42] ++ List.replicate 12 7 ++ [0, 0x24, 0, 8, 1, 2, 3, 4, 0, 0x25, 0, 0]

theorem attributeHeaders_exact_username : ∃ positions, attributeHeaders .ice usernameMessage = some positions ∧
    (Tlv usernameMessage kStunHeaderSize positions ∧ SeenAlike usernameMessage positions ↔
      usernameMessage.length % 4 = 0 ∧
        ∀ q, AttributeAt usernameMessage kStunHeaderSize q → Announced usernameMessage .ice q) :=
  attributeHeaders_exact .ice usernameMessage (by decide)

theorem not_attributeHeaders_priority : (StunMessage.read .ice longPriority).isSome ∧
    attributeHeaders .ice longPriority = some [20, 28] ∧ ¬ Tlv longPriority kStunHeaderSize [20, 28] := by
  refine ⟨by decide, by decide, fun htlv => ?_⟩
  cases htlv with
  | next inside rest => exact absurd rest.head (by decide)

end Loop

end WebRtc.Stun
