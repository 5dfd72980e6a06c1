import Mathlib.Data.List.GetD
import WebRtc.Fec.Decoder
import WebRtc.Fec.Encoder

/-!
# A lost packet comes back

A FEC packet is the XOR of what it protects: every byte of it is the XOR of one byte of each packet
(`enc`), and the decoder XORs the same bytes of the packets it has back out (`dec`). What is left is
the lost packet, but for the bytes that the FEC header overwrites: the version is set, the sequence
number follows from the mask and the SSRC comes with the FEC packet.
-/

namespace WebRtc.Fec

open Bytes

/-! ## Sums of bytes -/

/-- The XOR of `f` over a list. -/
def xorSum {α : Type} (f : α → UInt8) : List α → UInt8
  | [] => 0
  | a :: l => f a ^^^ xorSum f l

theorem xorSum_map {α β : Type} (f : β → UInt8) (g : α → β) (l : List α) : xorSum f (l.map g) = xorSum (f ∘ g) l := by
  induction l with
  | nil => rfl
  | cons a l ih => rw [List.map_cons, xorSum, xorSum, ih, Function.comp]

theorem xorSum_zero {α : Type} (l : List α) : xorSum (fun _ => 0) l = 0 := by
  induction l with
  | nil => rfl
  | cons a l ih => rw [xorSum, ih, UInt8.xor_self]

/-- The sum of all and the sum of all but one leave that one. -/
theorem xorSum_filter_ne {α : Type} (f : α → UInt8) (key : α → Nat) {l : List α} {a : α} (ha : a ∈ l)
    (hl : (l.map key).Nodup) : xorSum f l ^^^ xorSum f (l.filter fun b => key b ≠ key a) = f a := by
  induction l with
  | nil => cases ha
  | cons b l ih =>
    obtain ⟨hb, hl⟩ := List.nodup_cons.1 hl
    rcases List.mem_cons.1 ha with rfl | hal
    · have hrest : (a :: l).filter (fun b => key b ≠ key a) = l := by
        rw [List.filter_cons_of_neg (by simp), List.filter_eq_self]
        intro c hc
        simpa using fun h : key c = key a => hb (h ▸ List.mem_map_of_mem hc)
      rw [hrest, xorSum, UInt8.xor_assoc, UInt8.xor_self, UInt8.xor_zero]
    · have hne : key b ≠ key a := fun h => hb (h ▸ List.mem_map_of_mem hal)
      rw [List.filter_cons_of_pos (by simpa using hne), xorSum, xorSum]
      calc f b ^^^ xorSum f l ^^^ (f b ^^^ xorSum f (l.filter fun b => key b ≠ key a))
          = f b ^^^ f b ^^^ (xorSum f l ^^^ xorSum f (l.filter fun b => key b ≠ key a)) := by ac_rfl
        _ = f a := by rw [UInt8.xor_self, UInt8.zero_xor, ih hal hl]

/-! ## Sequence numbers in a window -/

theorem ofNat_sub_toNat (base : UInt16) {j k : Nat} (hj : j < 65536) (hk : k < 65536) :
    (base + UInt16.ofNat j - (base + UInt16.ofNat k)).toNat = (65536 + j - k) % 65536 := by
  have hb := base.toNat_lt
  simp only [UInt16.toNat_sub, UInt16.toNat_add, UInt16.toNat_ofNat']
  omega

theorem lessThan_window (base : UInt16) {j k : Nat} (hj : j < 32768) (hk : k < 32768) :
    lessThan (base + UInt16.ofNat j) (base + UInt16.ofNat k) = decide (j < k) := by
  have h := ofNat_sub_toNat base (j := k) (k := j) (by omega) (by omega)
  have hne : ¬ base + UInt16.ofNat k - (base + UInt16.ofNat j) = 0x8000 := by
    intro heq
    have := congrArg UInt16.toNat heq
    rw [h] at this
    simp only [UInt16.reduceToNat] at this
    omega
  unfold lessThan isNewerSequenceNumber
  rw [if_neg hne]
  by_cases hjk : j < k
  · have h1 : base + UInt16.ofNat k ≠ base + UInt16.ofNat j := by
      intro heq
      rw [heq, UInt16.sub_self] at h
      simp only [UInt16.toNat_zero] at h
      omega
    have h2 : base + UInt16.ofNat k - (base + UInt16.ofNat j) < 0x8000 := by
      rw [UInt16.lt_iff_toNat_lt, h]
      simp only [UInt16.reduceToNat]
      omega
    simp only [hjk, decide_true, Bool.and_eq_true, decide_eq_true_eq]
    exact ⟨h1, h2⟩
  · have h2 : base + UInt16.ofNat k ≠ base + UInt16.ofNat j →
        ¬ base + UInt16.ofNat k - (base + UInt16.ofNat j) < 0x8000 := by
      intro hne' hlt
      rw [UInt16.lt_iff_toNat_lt, h] at hlt
      simp only [UInt16.reduceToNat] at hlt
      exact hne' (by rw [show j = k by omega])
    simp only [hjk, decide_false, Bool.and_eq_false_imp, decide_eq_true_eq, decide_eq_false_iff_not]
    exact h2

/-! ## The encoder -/

/-- What a packet contributes to byte `j` of a FEC packet. -/
def enc (lBit : Bool) (p : Packet) (j : Nat) : UInt8 :=
  if j < 2 ∨ 4 ≤ j ∧ j < 8 then p.data j
  else if j = 8 then hi16 (p.length - rtpHeaderSize)
  else if j = 9 then lo16 (p.length - rtpHeaderSize)
  else if fecHeaderSize + ulpHeaderSize lBit ≤ j ∧ j < p.length + fecRtpOffset lBit then
    p.data (j - fecRtpOffset lBit)
  else 0

/-- The length of a FEC packet with room for all of these. -/
def longest (lBit : Bool) : List Packet → Nat
  | [] => 0
  | p :: ps => max (p.length + fecRtpOffset lBit) (longest lBit ps)

theorem longest_le {lBit : Bool} {ps : List Packet} {top : Nat} :
    longest lBit ps ≤ top ↔ ∀ p ∈ ps, p.length + fecRtpOffset lBit ≤ top := by
  induction ps with
  | nil => simp [longest]
  | cons p ps ih => simp only [longest, Nat.max_le, ih, List.forall_mem_cons]

/-- Nothing was written to a packet that is marked untouched. -/
def Clear (g : Packet) : Prop := g.length = 0 → ∀ j, g.data j = 0

theorem fecRtpOffset_eq (lBit : Bool) : fecRtpOffset lBit = if lBit then 6 else 2 := by
  cases lBit <;> rfl

section Encode
variable {l : Bool}

/-- Copying into a cleared packet is XORing too. -/
theorem protect_data {g m : Packet} (hg : Clear g) (hm : m.length ≤ 1500) (j : Nat) :
    (protect l g m).data j = g.data j ^^^ enc l m j := by
  have hoff : fecRtpOffset l ≤ 6 := by rw [fecRtpOffset_eq]; split <;> omega
  have hmod : (m.length + fecRtpOffset l) % 65536 = m.length + fecRtpOffset l := by omega
  have hput (new : UInt8) : (if g.length = 0 then new else g.data j ^^^ new) = g.data j ^^^ new := by
    split
    · rw [hg ‹_›, UInt8.zero_xor]
    · rfl
  simp only [protect, enc, hput, hmod]
  split
  · rfl
  · split
    · rfl
    · split
      · rfl
      · split
        · rfl
        · rw [UInt8.xor_zero]

theorem protect_length {g m : Packet} (hm : m.length ≤ 1500) :
    (protect l g m).length = max g.length (m.length + fecRtpOffset l) := by
  have hoff : fecRtpOffset l ≤ 6 := by rw [fecRtpOffset_eq]; split <;> omega
  simp only [protect]
  rw [Nat.mod_eq_of_lt (by omega)]
  split <;> omega

theorem protect_clear {g m : Packet} (h0 : 12 ≤ m.length) (hm : m.length ≤ 1500) : Clear (protect l g m) := by
  intro h
  rw [protect_length hm] at h
  omega

/-- A FEC packet under construction: the XOR of what was there and of what was added. -/
theorem foldl_protect {ps : List Packet} (hps : ∀ p ∈ ps, 12 ≤ p.length ∧ p.length ≤ 1500) {g : Packet} (hg : Clear g) :
    (∀ j, (ps.foldl (protect l) g).data j = g.data j ^^^ xorSum (fun p => enc l p j) ps) ∧
    (ps.foldl (protect l) g).length = max g.length (longest l ps) := by
  induction ps generalizing g with
  | nil => exact ⟨fun j => by rw [xorSum, UInt8.xor_zero]; rfl, (Nat.max_zero _).symm⟩
  | cons p ps ih =>
    obtain ⟨hp0, hp1⟩ := hps p List.mem_cons_self
    obtain ⟨hd, hlen⟩ := ih (fun q hq => hps q (List.mem_cons_of_mem p hq)) (@protect_clear l g p hp0 hp1)
    rw [List.foldl_cons]
    refine ⟨fun j => ?_, ?_⟩
    · rw [hd, protect_data hg hp1, xorSum, UInt8.xor_assoc]
    · rw [hlen, protect_length hp1, longest, Nat.max_assoc]

end Encode

/-- The packets of a list whose index, counted from `k`, is selected. -/
def select (bit : Nat → Bool) (k : Nat) (ms : List Packet) : List (Packet × Nat) :=
    (ms.zipIdx k).filter fun z => bit z.2

/-- The indices into the mask follow the index of the packet. -/
theorem bitString_eq (lBit : Bool) (mask : Nat → UInt8) {ms : List Packet}
    (hseq : ms.IsChain fun a b => parseSequenceNumber b.data = parseSequenceNumber a.data + 1) (k : Nat) (g : Packet) :
    bitString lBit mask ms (k / 8) (k % 8) g =
      ((select (maskBit mask 0) k ms).map Prod.fst).foldl (protect lBit) g := by
  induction ms generalizing k g with
  | nil => rfl
  | cons m ms ih =>
    have hbit : (mask (k / 8)).toNat.testBit (7 - k % 8) = maskBit mask 0 k := by rw [maskBit, Nat.zero_add]
    have hsel : ((select (maskBit mask 0) k (m :: ms)).map Prod.fst).foldl (protect lBit) g =
        ((select (maskBit mask 0) (k + 1) ms).map Prod.fst).foldl (protect lBit)
          (if maskBit mask 0 k then protect lBit g m else g) := by
      simp only [select, List.zipIdx_cons, List.filter_cons]
      split <;> rfl
    rw [hsel]
    cases ms with
    | nil =>
      simp only [bitString, hbit, ite_self]
      rfl
    | cons m' ms =>
      have hnext : parseSequenceNumber m'.data - parseSequenceNumber m.data = 1 := by
        rw [(List.isChain_cons_cons.1 hseq).1, UInt16.add_comm, UInt16.add_sub_cancel]
      have hone : (1 : UInt16).toNat = 1 := rfl
      rw [bitString]
      simp only [hbit, hnext, hone]
      rw [← ih (List.isChain_cons_cons.1 hseq).2]
      split
      · rw [show (k + 1) / 8 = k / 8 + 1 by omega, show (k + 1) % 8 = 0 by omega]
      · rw [show (k + 1) / 8 = k / 8 by omega, show (k + 1) % 8 = k % 8 + 1 by omega]

/-! ## What the decoder holds -/

theorem mem_dropWhile_lt (bs : List Nat) {a c : Nat} (h : a ≤ c) :
    c ∈ bs.dropWhile (fun b => decide (b < a)) ↔ c ∈ bs := by
  induction bs with
  | nil => rfl
  | cons b bs ih =>
    rw [List.dropWhile_cons]
    split
    · rename_i hb
      have hne : c ≠ b := by
        rintro rfl
        exact absurd (of_decide_eq_true hb) (by omega)
      rw [ih, List.mem_cons, or_iff_right hne]
    · rfl

/-- The intersection of increasing lists of indices, under any order that agrees with theirs. -/
theorem setIntersection_map {α β : Type} {l : α → β → Bool} {r : β → α → Bool} {f : Nat → α} {g : Nat → β}
    {as bs : List Nat} (has : as.Pairwise (· < ·)) (hbs : bs.Pairwise (· < ·))
    (hab : ∀ a ∈ as, ∀ b ∈ bs, l (f a) (g b) = decide (a < b))
    (hba : ∀ a ∈ as, ∀ b ∈ bs, r (g b) (f a) = decide (b < a)) :
    setIntersection l r (as.map f) (bs.map g) = (as.filter fun a => a ∈ bs).map f := by
  induction as generalizing bs with
  | nil => rfl
  | cons a as ih =>
    obtain ⟨hlt, has⟩ := List.pairwise_cons.1 has
    -- The elements of `bs` before `a` are skipped, and no later element of `as` is among them.
    have hskip : (bs.map g).dropWhile (fun b => !l (f a) b && r b (f a)) =
        (bs.dropWhile fun b => decide (b < a)).map g := by
      refine dropWhile_map_congr fun b hb => ?_
      rw [hab a List.mem_cons_self b hb, hba a List.mem_cons_self b hb]
      by_cases h : b < a
      · simp [h, Nat.le_of_lt h]
      · simp [h]
    have hsub : (bs.dropWhile fun b => decide (b < a)).Sublist bs := List.dropWhile_sublist _
    have hfilter : ((a :: as).filter fun c => c ∈ bs) =
        (a :: as).filter fun c => c ∈ bs.dropWhile fun b => decide (b < a) := by
      refine List.filter_congr fun c hc => ?_
      rcases List.mem_cons.1 hc with rfl | hc
      · simp only [mem_dropWhile_lt bs (le_refl c)]
      · simp only [mem_dropWhile_lt bs (le_of_lt (hlt c hc))]
    rw [hfilter, List.map_cons, setIntersection, hskip]
    have hbs' := hbs.sublist hsub
    have hhead : ∀ b cs, (bs.dropWhile fun b => decide (b < a)) = b :: cs → a ≤ b := by
      intro b cs h
      have := List.head?_dropWhile_not (fun b => decide (b < a)) bs
      rw [h] at this
      simpa using this
    generalize hds : (bs.dropWhile fun b => decide (b < a)) = ds at *
    cases ds with
    | nil => simp
    | cons b ds =>
      have hb : b ∈ bs := hsub.subset List.mem_cons_self
      have hle := hhead b ds rfl
      obtain ⟨hblt, hds'⟩ := List.pairwise_cons.1 hbs'
      have hab' : ∀ c ∈ as, ∀ d ∈ b :: ds, l (f c) (g d) = decide (c < d) := fun c hc d hd =>
        hab c (List.mem_cons_of_mem a hc) d (hsub.subset hd)
      have hba' : ∀ c ∈ as, ∀ d ∈ b :: ds, r (g d) (f c) = decide (d < c) := fun c hc d hd =>
        hba c (List.mem_cons_of_mem a hc) d (hsub.subset hd)
      simp only [List.map_cons, hab a List.mem_cons_self b hb, decide_eq_true_eq]
      split
      · have hna : a ∉ b :: ds := by
          intro h
          rcases List.mem_cons.1 h with rfl | h
          · omega
          · exact absurd (hblt a h) (by omega)
        rw [List.filter_cons_of_neg (by simpa using hna), ← List.map_cons, ih has hbs' hab' hba']
      · obtain rfl : a = b := by omega
        rw [List.filter_cons_of_pos (by simp), List.map_cons,
          ih has hds' (fun c hc d hd => hab' c hc d (List.mem_cons_of_mem _ hd))
            (fun c hc d hd => hba' c hc d (List.mem_cons_of_mem _ hd))]
        congr 2
        refine List.filter_congr fun c hc => ?_
        have : c ≠ a := by have := hlt c hc; omega
        simp [this]

theorem assignAll_ne {p : ProtectedPacket} {rs : List RecoveredPacket} (h : ∀ r ∈ rs.head?, r.seqNum ≠ p.seqNum) :
    assignAll p rs = (p, rs) := by
  cases rs with
  | nil => rfl
  | cons r rs => rw [assignAll, if_neg (h r rfl)]

/-- Every packet that is there is assigned to its entry. -/
theorem assignRecovered_map (seq : Nat → UInt16) (pk : Nat → Packet) (here : Nat → Bool) {ks : List Nat}
    (hinj : (ks.map seq).Nodup) :
    assignRecovered (ks.map fun k => ⟨seq k, none⟩) ((ks.filter here).map fun k => ⟨seq k, false, pk k⟩) =
      ks.map fun k => ⟨seq k, if here k then some (pk k) else none⟩ := by
  induction ks with
  | nil => rfl
  | cons k ks ih =>
    obtain ⟨hk, hks⟩ := List.nodup_cons.1 hinj
    have hne : ∀ p : ProtectedPacket, p.seqNum = seq k →
        assignAll p ((ks.filter here).map fun k => ⟨seq k, false, pk k⟩) =
          (p, (ks.filter here).map fun k => ⟨seq k, false, pk k⟩) := by
      intro p hp
      refine assignAll_ne fun r hr heq => hk ?_
      obtain ⟨c, hc, rfl⟩ := List.mem_map.1 (List.mem_of_mem_head? hr)
      exact List.mem_map.2 ⟨c, (List.mem_filter.1 hc).1, by rw [← hp]; exact heq⟩
    rw [List.map_cons, List.map_cons, assignRecovered]
    by_cases hhere : here k
    · rw [List.filter_cons_of_pos hhere, List.map_cons, assignAll, if_pos rfl, hne _ rfl, ih hks, if_pos hhere]
    · rw [List.filter_cons_of_neg hhere, hne _ rfl, ih hks, if_neg hhere]

/-- What a packet contributes to byte `j` of a packet that is being recovered. -/
def dec (p : Packet) (j : Nat) : UInt8 :=
  if j < 2 ∨ 4 ≤ j ∧ j < 8 ∨ rtpHeaderSize ≤ j ∧ j < p.length then p.data j else 0

theorem xorPackets_data (p : Packet) (r : Recovery) (j : Nat) : (xorPackets p r).data j = r.data j ^^^ dec p j := by
  simp only [xorPackets, dec]
  split
  · rfl
  · rw [UInt8.xor_zero]

/-- All packets but the lost one are XORed in. -/
theorem foldl_recoverStep (seq : Nat → UInt16) (pk : Nat → Packet) {here : Nat → Bool} {lost : Nat} {ks : List Nat}
    (hlost : ∀ k ∈ ks, here k = decide (k ≠ lost)) (r : Recovery) :
    (ks.map fun k => (⟨seq k, if here k then some (pk k) else none⟩ : ProtectedPacket)).foldl recoverStep r =
      { seqNum := if lost ∈ ks then seq lost else r.seqNum
        data := fun j => r.data j ^^^ xorSum (fun k => dec (pk k) j) (ks.filter fun k => k ≠ lost)
        lengthRecovery :=
          (r.lengthRecovery.1 ^^^ xorSum (fun k => hi16 ((pk k).length - rtpHeaderSize)) (ks.filter fun k => k ≠ lost),
          r.lengthRecovery.2 ^^^ xorSum (fun k => lo16 ((pk k).length - rtpHeaderSize))
              (ks.filter fun k => k ≠ lost)) } := by
  induction ks generalizing r with
  | nil => simp [xorSum]
  | cons k ks ih =>
    rw [List.map_cons, List.foldl_cons, ih fun c hc => hlost c (List.mem_cons_of_mem k hc), hlost k List.mem_cons_self]
    by_cases hk : k = lost
    · subst hk
      simp [recoverStep]
    · have hlk : ¬ lost = k := fun h => hk h.symm
      have hnew : recoverStep r ⟨seq k, if decide (k ≠ lost) then some (pk k) else none⟩ = xorPackets (pk k) r := by
        simp [recoverStep, hk]
      rw [hnew, List.filter_cons_of_pos (by simpa using hk)]
      have hseq : (xorPackets (pk k) r).seqNum = r.seqNum := rfl
      have hlen : (xorPackets (pk k) r).lengthRecovery = (r.lengthRecovery.1 ^^^ hi16 ((pk k).length - rtpHeaderSize),
        r.lengthRecovery.2 ^^^ lo16 ((pk k).length - rtpHeaderSize)) := rfl
      simp only [hseq, hlen, xorPackets_data, xorSum, List.mem_cons, hlk, false_or, UInt8.xor_assoc]

/-! ## The bytes that the FEC header overwrites -/

/-- The first byte of a FEC packet, from the XOR of the first bytes. -/
def fecByte (lBit : Bool) (b : UInt8) : UInt8 := if lBit then (b &&& 0x7f) ||| 0x40 else (b &&& 0x7f) &&& 0xbf

theorem fecByte_lBit (lBit : Bool) (b : UInt8) : decide (fecByte lBit b &&& 0x40 ≠ 0) = lBit := by
  revert b lBit
  decide +kernel

/-- Only the two bits of the version are lost, and they are set again. -/
theorem version_restored (lBit : Bool) {x y z : UInt8} (hxy : x ^^^ y = z) (hz : z &&& 0xc0 = 0x80) :
    ((fecByte lBit x ^^^ y) ||| 0x80) &&& 0xbf = z := by
  have hd : fecByte lBit x ^^^ x = 0 ∨ fecByte lBit x ^^^ x = 0x40 ∨ fecByte lBit x ^^^ x = 0x80 ∨
      fecByte lBit x ^^^ x = 0xc0 := by
    clear hxy
    revert x lBit
    decide +kernel
  have hsplit : fecByte lBit x ^^^ y = z ^^^ (fecByte lBit x ^^^ x) := by
    calc fecByte lBit x ^^^ y = fecByte lBit x ^^^ y ^^^ (x ^^^ x) := by rw [UInt8.xor_self, UInt8.xor_zero]
      _ = (x ^^^ y) ^^^ (fecByte lBit x ^^^ x) := by ac_rfl
      _ = z ^^^ (fecByte lBit x ^^^ x) := by rw [hxy]
  rw [hsplit]
  clear hsplit hxy
  revert z
  rcases hd with h | h | h | h <;> rw [h] <;> decide +kernel

/-! ## The round trip -/

/-- What may be given to the encoder: up to 48 RTP packets of one stream in sequence. -/
structure MediaList (ms : List Packet) (ssrc : UInt32) : Prop where
  nonempty : 1 ≤ ms.length
  count : ms.length ≤ maxMediaPackets
  lengths : ∀ p ∈ ms, rtpHeaderSize ≤ p.length ∧ p.length ≤ ipPacketSize - rtpHeaderSize
  version : ∀ p ∈ ms, p.data 0 &&& 0xc0 = 0x80
  ssrc : ∀ p ∈ ms, ∀ k < 4, p.data (8 + k) = byte32 ssrc k
  consecutive : ms.IsChain fun a b => parseSequenceNumber b.data = parseSequenceNumber a.data + 1

/-- The L bit of `GenerateFEC`. -/
def lBitFor (ms : List Packet) : Bool := decide (16 < ms.length)

/-- Bit `k` of row `i` of the masks. -/
def rowBit (ms : List Packet) (packetMask : Nat → UInt8) (i k : Nat) : Bool :=
  maskBit packetMask (i * maskSize (lBitFor ms)) k

/-- The packets that arrive, in order. -/
def arrived (ms : List Packet) (here : Nat → Bool) : List RecoveredPacket :=
  (ms.zipIdx.filter fun z => here z.2).map fun z => ⟨parseSequenceNumber z.1.data, false, z.1⟩

theorem zipIdx_eq_map (ms : List Packet) : ms.zipIdx = (List.range ms.length).map fun k => (ms.getD k blank, k) := by
  apply List.ext_getElem
  · simp
  · intro k h1 h2
    have hk : k < ms.length := by simpa using h1
    simp [List.getElem?_eq_getElem hk]

theorem count_le_mask {ms : List Packet} {ssrc : UInt32} (hm : MediaList ms ssrc) :
    ms.length ≤ 8 * maskSize (lBitFor ms) := by
  have := hm.count
  unfold maskSize lBitFor
  by_cases h : 16 < ms.length
  · simp only [h, decide_true, if_true]
    omega
  · simp only [h, decide_false, Bool.false_eq_true, if_false]
    omega

theorem chain_seq {ms : List Packet}
    (h : ms.IsChain fun a b => parseSequenceNumber b.data = parseSequenceNumber a.data + 1) {k : Nat}
    (hk : k < ms.length) :
    parseSequenceNumber (ms.getD k blank).data = parseSequenceNumber (ms.getD 0 blank).data + UInt16.ofNat k := by
  induction ms generalizing k with
  | nil => cases hk
  | cons m ms ih =>
    cases k with
    | zero => exact (UInt16.add_zero _).symm
    | succ k =>
      cases ms with
      | nil => simp at hk
      | cons m' ms =>
        obtain ⟨hm, hms⟩ := List.isChain_cons_cons.1 h
        have := ih hms (k := k) (by simpa using hk)
        rw [List.getD_cons_succ, this, List.getD_cons_zero, List.getD_cons_zero, hm, UInt16.add_assoc]
        congr 1
        rw [UInt16.add_comm, UInt16.ofNat_add]
        rfl

section RoundTrip
variable {ms : List Packet} {ssrc : UInt32} (packetMask : Nat → UInt8) (i : Nat)

/-- The indices of the packets that row `i` protects. -/
def protectedIdx (ms : List Packet) (packetMask : Nat → UInt8) (i : Nat) : List Nat :=
  (List.range ms.length).filter (rowBit ms packetMask i)

/-- FEC packet `i`, before and after the headers are written. -/
def fecBody (ms : List Packet) (packetMask : Nat → UInt8) (i : Nat) : Packet :=
  bitString (lBitFor ms) (fun k => packetMask (i * maskSize (lBitFor ms) + k)) ms 0 0 blank

def fecOf (ms : List Packet) (packetMask : Nat → UInt8) (i : Nat) : Packet :=
  ulpHeader (ms.getD 0 blank) packetMask (lBitFor ms) i (fecBody ms packetMask i)

theorem generated_eq (hm : MediaList ms ssrc) {numFecPackets : Nat} (hi : i < numFecPackets) :
    (generateFecUlpHeaders ms packetMask (lBitFor ms)
      (generateFecBitStrings ms packetMask numFecPackets (lBitFor ms)))[i]? = some (fecOf ms packetMask i) := by
  cases ms with
  | nil => exact absurd hm.nonempty (by simp)
  | cons first rest =>
    simp [generateFecUlpHeaders, generateFecBitStrings, fecOf, fecBody, List.getElem?_range hi]

theorem fecBody_eq (hm : MediaList ms ssrc) :
    fecBody ms packetMask i =
      ((protectedIdx ms packetMask i).map fun k => ms.getD k blank).foldl (protect (lBitFor ms)) blank := by
  have hbits : maskBit (fun k => packetMask (i * maskSize (lBitFor ms) + k)) 0 = rowBit ms packetMask i := by
    funext k
    rw [maskBit, rowBit, maskBit, Nat.zero_add]
  have h := bitString_eq (lBitFor ms) (fun k => packetMask (i * maskSize (lBitFor ms) + k)) hm.consecutive 0 blank
  rw [Nat.zero_div, Nat.zero_mod] at h
  rw [fecBody, h, hbits, select, zipIdx_eq_map, List.filter_map, List.map_map, protectedIdx]
  rfl

theorem getD_mem {k : Nat} (hk : k < ms.length) : ms.getD k blank ∈ ms := by
  rw [List.getD_eq_getElem _ _ hk]
  exact List.getElem_mem hk

theorem mem_protectedIdx {k : Nat} :
    k ∈ protectedIdx ms packetMask i ↔ k < ms.length ∧ rowBit ms packetMask i k = true := by
  rw [protectedIdx, List.mem_filter, List.mem_range]

/-- The FEC packet is the XOR of the packets it protects, and long enough for each of them. -/
theorem fecBody_spec (hm : MediaList ms ssrc) :
    (∀ j, (fecBody ms packetMask i).data j =
      xorSum (fun k => enc (lBitFor ms) (ms.getD k blank) j) (protectedIdx ms packetMask i)) ∧
    (∀ k ∈ protectedIdx ms packetMask i,
      (ms.getD k blank).length + fecRtpOffset (lBitFor ms) ≤ (fecBody ms packetMask i).length) ∧
    (fecBody ms packetMask i).length ≤ 1488 + fecRtpOffset (lBitFor ms) := by
  have hps : ∀ p ∈ (protectedIdx ms packetMask i).map fun k => ms.getD k blank, 12 ≤ p.length ∧ p.length ≤ 1488 := by
    intro p hp
    obtain ⟨k, hk, rfl⟩ := List.mem_map.1 hp
    exact hm.lengths _ (getD_mem ((mem_protectedIdx packetMask i).1 hk).1)
  obtain ⟨hd, hlen⟩ := foldl_protect (l := lBitFor ms)
    (fun p hp => ⟨(hps p hp).1, le_trans (hps p hp).2 (by decide)⟩) (g := blank) fun _ _ => rfl
  rw [← fecBody_eq packetMask i hm] at hd hlen
  have hblank : blank.length = 0 := rfl
  rw [hblank, Nat.zero_max] at hlen
  refine ⟨fun j => ?_, fun k hk => ?_, ?_⟩
  · rw [hd, xorSum_map]
    exact UInt8.zero_xor
  · rw [hlen]
    exact longest_le.1 (le_refl _) _ (List.mem_map_of_mem hk)
  · rw [hlen]
    exact longest_le.2 fun p hp => Nat.add_le_add_right (hps p hp).2 _

theorem fecOf_lBit : lBitOf (fecOf ms packetMask i) = lBitFor ms := fecByte_lBit (lBitFor ms) _

theorem fecOf_maskBit {k : Nat} (hk : k < 8 * maskSize (lBitFor ms)) :
    maskBit (fecOf ms packetMask i).data 12 k = rowBit ms packetMask i k := by
  have hin : 12 ≤ 12 + k / 8 ∧ 12 + k / 8 < 12 + maskSize (lBitFor ms) := by omega
  simp only [maskBit, rowBit, fecOf, ulpHeader]
  rw [if_neg (by omega), if_neg (by omega), if_neg (by omega), if_neg (by omega), if_neg (by omega), if_pos hin,
    Nat.add_sub_cancel_left]

/-- Byte `j` of the FEC packet, where no header is written. -/
theorem fecOf_data {j : Nat} (h : j = 1 ∨ 4 ≤ j ∧ j < 10 ∨ 12 + maskSize (lBitFor ms) ≤ j) :
    (fecOf ms packetMask i).data j = (fecBody ms packetMask i).data j := by
  simp only [fecOf, ulpHeader]
  rw [if_neg (by omega), if_neg (by omega), if_neg (by omega), if_neg (by omega), if_neg (by omega), if_neg (by omega)]

/-- The sequence number of packet `k`. -/
def seqOf (ms : List Packet) (k : Nat) : UInt16 := parseSequenceNumber (ms.getD 0 blank).data + UInt16.ofNat k

theorem lessThan_seqOf (hm : MediaList ms ssrc) {j k : Nat} (hj : j < ms.length) (hk : k < ms.length) :
    lessThan (seqOf ms j) (seqOf ms k) = decide (j < k) := by
  have : ms.length ≤ 48 := hm.count
  exact lessThan_window _ (by omega) (by omega)

theorem seqOf_inj (hm : MediaList ms ssrc) {j k : Nat} (hj : j < ms.length) (hk : k < ms.length)
    (h : seqOf ms j = seqOf ms k) : j = k := by
  have : ms.length ≤ 48 := hm.count
  have h1 := ofNat_sub_toNat (parseSequenceNumber (ms.getD 0 blank).data) (j := j) (k := k) (by omega) (by omega)
  rw [seqOf, seqOf] at h
  rw [h, UInt16.sub_self, UInt16.toNat_zero] at h1
  omega

/-- Row `i` protects nothing beyond the list. -/
def RowInside (ms : List Packet) (packetMask : Nat → UInt8) (i : Nat) : Prop :=
  ∀ k, k < 8 * maskSize (lBitFor ms) → rowBit ms packetMask i k = true → k < ms.length

theorem protectedSeqs_fecOf (hm : MediaList ms ssrc) (hin : RowInside ms packetMask i) :
    protectedSeqs (fecOf ms packetMask i) = (protectedIdx ms packetMask i).map (seqOf ms) := by
  have hle := count_le_mask hm
  have hrange : (List.range (8 * maskSize (lBitFor ms))).filter (fun k => maskBit (fecOf ms packetMask i).data 12 k) =
      protectedIdx ms packetMask i := by
    obtain ⟨d, hd⟩ := Nat.exists_eq_add_of_le hle
    have hcongr : (List.range (8 * maskSize (lBitFor ms))).filter (fun k => maskBit (fecOf ms packetMask i).data 12 k) =
        (List.range (8 * maskSize (lBitFor ms))).filter (rowBit ms packetMask i) :=
      List.filter_congr fun k hk => fecOf_maskBit packetMask i (List.mem_range.1 hk)
    have hbeyond : ((List.range d).map fun x => ms.length + x).filter (rowBit ms packetMask i) = [] := by
      rw [List.filter_eq_nil_iff]
      intro k hk hbit
      obtain ⟨e, he, rfl⟩ := List.mem_map.1 hk
      have := List.mem_range.1 he
      exact absurd (hin _ (by omega) hbit) (by omega)
    rw [hcongr, protectedIdx, hd, List.range_add, List.filter_append, hbeyond, List.append_nil]
  rw [protectedSeqs, fecOf_lBit, hrange]
  rfl

theorem protectedIdx_sorted : (protectedIdx ms packetMask i).Pairwise (· < ·) :=
  List.pairwise_lt_range.sublist List.filter_sublist

theorem arrived_eq (hm : MediaList ms ssrc) (here : Nat → Bool) :
    arrived ms here =
      ((List.range ms.length).filter here).map fun k => (⟨seqOf ms k, false, ms.getD k blank⟩ : RecoveredPacket) := by
  rw [arrived, zipIdx_eq_map, List.filter_map, List.map_map]
  refine List.map_congr_left fun k hk => ?_
  have hk : k < ms.length := List.mem_range.1 (List.mem_filter.1 hk).1
  simp only [Function.comp, chain_seq hm.consecutive hk, seqOf]

/-- The entries of a FEC packet after its insertion. -/
theorem newFecPacket_protected (hm : MediaList ms ssrc) (hin : RowInside ms packetMask i) (here : Nat → Bool)
    (fecSeq : UInt16) :
    (newFecPacket ⟨fecSeq, ssrc, true, fecOf ms packetMask i⟩ (arrived ms here)).protectedPktList =
      (protectedIdx ms packetMask i).map fun k =>
        ⟨seqOf ms k, if here k then some (ms.getD k blank) else none⟩ := by
  have hlt : ∀ k ∈ (List.range ms.length).filter here, k < ms.length := fun k hk =>
    List.mem_range.1 (List.mem_filter.1 hk).1
  have hlt' : ∀ k ∈ protectedIdx ms packetMask i, k < ms.length := fun k hk =>
    ((mem_protectedIdx packetMask i).1 hk).1
  have hinter := setIntersection_map (l := fun (r : RecoveredPacket) (p : ProtectedPacket) =>
    lessThan r.seqNum p.seqNum)
    (r := fun p r => lessThan p.seqNum r.seqNum)
    (f := fun k => (⟨seqOf ms k, false, ms.getD k blank⟩ : RecoveredPacket))
    (g := fun k => (⟨seqOf ms k, none⟩ : ProtectedPacket))
    (List.pairwise_lt_range.sublist (List.filter_sublist (p := here))) (protectedIdx_sorted packetMask i)
    (fun a ha b hb => lessThan_seqOf hm (hlt a ha) (hlt' b hb)) (fun a ha b hb => lessThan_seqOf hm
      (hlt' b hb) (hlt a ha))
  have hboth : ((List.range ms.length).filter here).filter (fun k => k ∈ protectedIdx ms packetMask i) =
      (protectedIdx ms packetMask i).filter here := by
    rw [protectedIdx, List.filter_filter, List.filter_filter]
    refine List.filter_congr fun k hk => ?_
    simp [List.mem_range.1 hk, Bool.and_comm]
  have hnodup : ((protectedIdx ms packetMask i).map (seqOf ms)).Nodup := by
    refine List.Nodup.map_on (fun a ha b hb => seqOf_inj hm (hlt' a ha) (hlt' b hb)) ?_
    exact (protectedIdx_sorted packetMask i).imp fun h => Nat.ne_of_lt h
  rw [newFecPacket]
  simp only [assignRecoveredPackets]
  rw [protectedSeqs_fecOf packetMask i hm hin, arrived_eq hm, List.map_map]
  refine Eq.trans ?_ (assignRecovered_map (seqOf ms) (fun k => ms.getD k blank) here hnodup)
  rw [← hboth, ← hinter]
  rfl

/-- The XOR of what all protected packets contribute and of what all but one do. -/
theorem xorSum_rest (f : Nat → UInt8) {lost : Nat} (h : lost ∈ protectedIdx ms packetMask i) :
    xorSum f (protectedIdx ms packetMask i) ^^^ xorSum f ((protectedIdx ms packetMask i).filter fun k => k ≠ lost) =
      f lost := by
  refine xorSum_filter_ne f id h ?_
  rw [List.map_id]
  exact (protectedIdx_sorted packetMask i).imp fun h => Nat.ne_of_lt h

/-- Byte `j + fec_rtp_offset` of a FEC packet is byte `j` of the packets. -/
theorem enc_payload (l : Bool) (p : Packet) {j : Nat} (hj : 12 ≤ j) : enc l p (j + fecRtpOffset l) = dec p j := by
  have hoff : fecHeaderSize + ulpHeaderSize l = 12 + fecRtpOffset l := by cases l <;> rfl
  have h1 : fecRtpOffset l ≤ 6 := by cases l <;> decide
  have h2 : 2 ≤ fecRtpOffset l := by cases l <;> decide
  simp only [enc, dec, hoff, Nat.add_sub_cancel, show rtpHeaderSize = 12 from rfl]
  rw [if_neg (by omega), if_neg (by omega), if_neg (by omega)]
  by_cases hp : j < p.length
  · rw [if_pos (by omega), if_pos (by omega)]
  · rw [if_neg (by omega), if_neg (by omega)]

/-- The FEC packet is accepted, and its bytes are where the packets have theirs. -/
theorem initRecovery_fecOf (hm : MediaList ms ssrc) {f : FecPacket} {lost : Nat}
    (hpkt : f.pkt = fecOf ms packetMask i) (hssrc : f.ssrc = ssrc) (hl : lost ∈ protectedIdx ms packetMask i) :
    ∃ r, initRecovery f = some r ∧ r.data 0 = fecByte (lBitFor ms) ((fecBody ms packetMask i).data 0) ∧
      (∀ j, j = 1 ∨ 4 ≤ j ∧ j < 8 → r.data j = (fecBody ms packetMask i).data j) ∧
      (∀ k < 4, r.data (8 + k) = byte32 ssrc k) ∧
      (∀ j, 12 ≤ j → j < (ms.getD lost blank).length →
        r.data j = (fecBody ms packetMask i).data (j + fecRtpOffset (lBitFor ms))) ∧
      r.lengthRecovery = ((fecBody ms packetMask i).data 8, (fecBody ms packetMask i).data 9) := by
  obtain ⟨-, hlong, htop⟩ := fecBody_spec packetMask i hm
  obtain ⟨hlt, -⟩ := (mem_protectedIdx packetMask i).1 hl
  have hlo : 12 ≤ (ms.getD lost blank).length := (hm.lengths _ (getD_mem hlt)).1
  have hfit := hlong lost hl
  have hulp : ulpHeaderSize (lBitFor ms) = 2 + maskSize (lBitFor ms) := rfl
  have hoff : fecRtpOffset (lBitFor ms) = maskSize (lBitFor ms) := by cases lBitFor ms <;> rfl
  have hmask : maskSize (lBitFor ms) ≤ 6 := by cases lBitFor ms <;> decide
  generalize hb : fecBody ms packetMask i = body at *
  have hlen : f.pkt.length = body.length := by rw [hpkt, fecOf, hb]; rfl
  have hprot : read16 (f.pkt.data 10) (f.pkt.data 11) = body.length - 10 - ulpHeaderSize (lBitFor ms) := by
    have h10 : f.pkt.data 10 = hi16 (body.length - 10 - ulpHeaderSize (lBitFor ms)) := by rw [hpkt, fecOf, hb]; rfl
    have h11 : f.pkt.data 11 = lo16 (body.length - 10 - ulpHeaderSize (lBitFor ms)) := by rw [hpkt, fecOf, hb]; rfl
    rw [h10, h11, read16_write]
    omega
  have hsame : ∀ j, j = 1 ∨ 4 ≤ j ∧ j < 10 ∨ 12 + maskSize (lBitFor ms) ≤ j → f.pkt.data j = body.data j := by
    intro j hj
    rw [hpkt, fecOf_data packetMask i hj, hb]
  have hbit : lBitOf f.pkt = lBitFor ms := by rw [hpkt, fecOf_lBit]
  have hrtp : rtpHeaderSize = 12 := rfl
  have hfec : fecHeaderSize = 10 := rfl
  have hip : ipPacketSize = 1500 := rfl
  rw [initRecovery]
  simp only [hbit, hprot, hlen]
  rw [if_neg (by omega), if_neg (by omega)]
  refine ⟨_, rfl, ?_, ?_, ?_, ?_, ?_⟩
  · have h0 : f.pkt.data 0 = fecByte (lBitFor ms) (body.data 0) := by rw [hpkt, fecOf, hb]; rfl
    simpa using h0
  · intro j hj
    dsimp only
    rw [if_pos (by omega), hsame j (by omega)]
  · intro k hk
    dsimp only
    rw [if_neg (by omega), if_pos (by omega), Nat.add_sub_cancel_left, hssrc]
  · intro j h12 hj
    dsimp only
    rw [if_neg (by omega), if_neg (by omega), if_pos ⟨h12, by omega⟩, hsame _ (by omega)]
    congr 1
    omega
  · dsimp only
    rw [hsame 8 (by omega), hsame 9 (by omega)]

/-- The recovery of a packet that is lost: its number, its length and its bytes. -/
theorem recoverPacket_of_protected (hm : MediaList ms ssrc) {f : FecPacket} {here : Nat → Bool} {lost : Nat}
    (hpkt : f.pkt = fecOf ms packetMask i) (hssrc : f.ssrc = ssrc)
    (hprot : f.protectedPktList = (protectedIdx ms packetMask i).map fun k =>
      ⟨seqOf ms k, if here k then some (ms.getD k blank) else none⟩)
    (hl : lost ∈ protectedIdx ms packetMask i)
    (hhere : ∀ k ∈ protectedIdx ms packetMask i, here k = decide (k ≠ lost)) :
    ∃ r, recoverPacket f = some r ∧ r.seqNum = parseSequenceNumber (ms.getD lost blank).data ∧
      r.pkt.length = (ms.getD lost blank).length ∧
      ∀ j < (ms.getD lost blank).length, r.pkt.data j = (ms.getD lost blank).data j := by
  obtain ⟨hdata, -, -⟩ := fecBody_spec packetMask i hm
  obtain ⟨r, hr, h0, hhead, hrssrc, hpay, hlen⟩ := initRecovery_fecOf packetMask i hm hpkt hssrc hl
  obtain ⟨hlt, -⟩ := (mem_protectedIdx packetMask i).1 hl
  have hseq : seqOf ms lost = parseSequenceNumber (ms.getD lost blank).data := (chain_seq hm.consecutive hlt).symm
  have hmem := getD_mem hlt
  obtain ⟨hlo, hhi⟩ : 12 ≤ (ms.getD lost blank).length ∧ (ms.getD lost blank).length ≤ 1488 := hm.lengths _ hmem
  have hrtp : rtpHeaderSize = 12 := rfl
  have hip : ipPacketSize = 1500 := rfl
  have hsum : ∀ f : Nat → UInt8, xorSum f (protectedIdx ms packetMask i) ^^^
      xorSum f ((protectedIdx ms packetMask i).filter fun k => k ≠ lost) = f lost :=
        fun f => xorSum_rest packetMask i f hl
  have hlen1 := hsum fun k => hi16 ((ms.getD k blank).length - rtpHeaderSize)
  have hlen2 := hsum fun k => lo16 ((ms.getD k blank).length - rtpHeaderSize)
  have hfold := foldl_recoverStep (seqOf ms) (fun k => ms.getD k blank) hhere r
  rw [← hprot, if_pos hl, hlen, hdata 8, hdata 9] at hfold
  have hread : read16 (hi16 ((ms.getD lost blank).length - rtpHeaderSize))
    (lo16 ((ms.getD lost blank).length - rtpHeaderSize)) +
      rtpHeaderSize = (ms.getD lost blank).length := by
    rw [read16_write, hrtp]
    omega
  have henc8 : (fun k => enc (lBitFor ms) (ms.getD k blank) 8) = fun k =>
      hi16 ((ms.getD k blank).length - rtpHeaderSize) := rfl
  have henc9 : (fun k => enc (lBitFor ms) (ms.getD k blank) 9) = fun k =>
      lo16 ((ms.getD k blank).length - rtpHeaderSize) := rfl
  rw [recoverPacket, hr, Option.bind_some, hfold, finishRecovery]
  dsimp only
  rw [henc8, henc9, hlen1, hlen2, hread, if_neg (by omega)]
  refine ⟨_, rfl, hseq, rfl, fun j hj => ?_⟩
  dsimp only
  split
  · -- The first byte.
    subst j
    rw [h0]
    refine version_restored _ ?_ (hm.version _ hmem)
    rw [hdata 0]
    exact hsum fun k => (ms.getD k blank).data 0
  split
  · subst j
    rw [hseq, parseSequenceNumber, UInt16.toNat_ofNat', Nat.mod_eq_of_lt (read16_lt _ _), hi16_read]
  split
  · subst j
    rw [hseq, parseSequenceNumber, UInt16.toNat_ofNat', Nat.mod_eq_of_lt (read16_lt _ _), lo16_read]
  by_cases h8 : j < 8
  · have henc : ∀ k, enc (lBitFor ms) (ms.getD k blank) j = (ms.getD k blank).data j := fun k => if_pos (by omega)
    have hdec : ∀ k, dec (ms.getD k blank) j = (ms.getD k blank).data j := fun k => if_pos (by omega)
    rw [hhead j (by omega), hdata j]
    simp only [henc, hdec]
    exact hsum fun k => (ms.getD k blank).data j
  by_cases h12 : j < 12
  · obtain ⟨k, rfl⟩ := Nat.exists_eq_add_of_le (Nat.le_of_not_lt h8)
    have hdec : ∀ c, dec (ms.getD c blank) (8 + k) = 0 := fun c => if_neg (by omega)
    rw [hrssrc k (by omega), hm.ssrc _ hmem k (by omega)]
    simp only [hdec, xorSum_zero, UInt8.xor_zero]
  · have hdec : dec (ms.getD lost blank) j = (ms.getD lost blank).data j := if_pos (by omega)
    rw [hpay j (by omega) hj, hdata, ← hdec]
    simp only [enc_payload _ _ (show 12 ≤ j by omega)]
    exact hsum fun k => dec (ms.getD k blank) j

end RoundTrip

/-- Inserting the received FEC packet and recovering with it gives the lost packet. -/
def ComesBack (s : Decoder) (rx : ReceivedPacket) (lost : Packet) : Prop :=
  ∃ f ∈ (insertFecPacket s rx).fecPacketList, f.seqNum = rx.seqNum ∧ ∃ r, recoverPacket f = some r ∧
    r.seqNum = parseSequenceNumber lost.data ∧ r.pkt.length = lost.length ∧
    ∀ j < lost.length, r.pkt.data j = lost.data j

/-- A FEC packet that is new and for which there is room is kept. -/
theorem mem_insertFecPacket {s : Decoder} {rx : ReceivedPacket} (hnew : ∀ f ∈ s.fecPacketList, rx.seqNum ≠ f.seqNum)
    (hroom : s.fecPacketList.length < maxMediaPackets) (hmask : protectedSeqs rx.pkt ≠ []) :
    newFecPacket rx s.recoveredPacketList ∈ (insertFecPacket s rx).fecPacketList := by
  have hany : ¬ (s.fecPacketList.any fun f => rx.seqNum = f.seqNum) = true := by
    simpa using hnew
  have hlen : ¬ (sortPackets FecPacket.seqNum (s.fecPacketList ++ [newFecPacket rx s.recoveredPacketList])).length >
      maxMediaPackets := by
    rw [sortPackets, List.length_insertionSort, List.length_append, List.length_singleton]
    omega
  rw [insertFecPacket, if_neg hany, if_neg (by simpa using hmask)]
  dsimp only
  rw [if_neg hlen, sortPackets, List.mem_insertionSort]
  simp

/-- Any one packet that a FEC packet protects comes back when the others it protects are there. -/
theorem comesBack_of_rowInside {ms : List Packet} {ssrc : UInt32} (hm : MediaList ms ssrc) {packetMask : Nat → UInt8}
    {i numFecPackets : Nat} (hi : i < numFecPackets) (hin : RowInside ms packetMask i) {fec : Packet}
    (hfec : (generateFecUlpHeaders ms packetMask (lBitFor ms)
      (generateFecBitStrings ms packetMask numFecPackets (lBitFor ms)))[i]? = some fec)
    {k : Nat} {lost : Packet} (hk : ms[k]? = some lost) (hbit : rowBit ms packetMask i k = true)
    {here : Nat → Bool} (hlost : here k = false)
    (hothers : ∀ c < ms.length, rowBit ms packetMask i c = true → c ≠ k → here c = true)
    {s : Decoder} (hs : s.recoveredPacketList = arrived ms here) (hroom : s.fecPacketList.length < maxMediaPackets)
    {fecSeq : UInt16} (hnew : ∀ f ∈ s.fecPacketList, fecSeq ≠ f.seqNum) :
    ComesBack s ⟨fecSeq, ssrc, true, fec⟩ lost := by
  obtain ⟨hlt, hget⟩ := List.getElem?_eq_some_iff.1 hk
  have hlostEq : ms.getD k blank = lost := by rw [List.getD_eq_getElem _ _ hlt, hget]
  have hfecEq : fec = fecOf ms packetMask i := by
    rw [generated_eq packetMask i hm hi] at hfec
    exact (Option.some.inj hfec).symm
  subst hfecEq
  have hmem : k ∈ protectedIdx ms packetMask i := (mem_protectedIdx packetMask i).2 ⟨hlt, hbit⟩
  have hmask : protectedSeqs (fecOf ms packetMask i) ≠ [] := by
    rw [protectedSeqs_fecOf packetMask i hm hin]
    intro h
    rw [List.map_eq_nil_iff.1 h] at hmem
    cases hmem
  have hhere : ∀ c ∈ protectedIdx ms packetMask i, here c = decide (c ≠ k) := by
    intro c hc
    by_cases hck : c = k
    · simp [hck, hlost]
    · obtain ⟨hclt, hcbit⟩ := (mem_protectedIdx packetMask i).1 hc
      simp [hck, hothers c hclt hcbit hck]
  have hprot := newFecPacket_protected packetMask i hm hin here fecSeq
  rw [← hs] at hprot
  have hback := recoverPacket_of_protected packetMask i hm rfl rfl hprot hmem hhere
  rw [hlostEq] at hback
  exact ⟨_, mem_insertFecPacket hnew hroom hmask, rfl, hback⟩

/-- Two packets, of which the second is lost. -/
def twoPackets : List Packet :=
  [⟨13, fun j => if j = 0 then 0x80 else if j = 2 then 0xff else if j = 3 then 0xff else if j = 12 then 5 else 0⟩,
    ⟨14, fun j => if j = 0 then 0x90 else if j = 12 then 9 else if j = 13 then 7 else 0⟩]

theorem mediaList_twoPackets : MediaList twoPackets 0 where
  nonempty := by decide
  count := by decide
  lengths := by decide
  version := by decide
  ssrc := by decide
  consecutive := by decide

theorem comesBack_twoPackets :
    ∃ fec, (generateFecUlpHeaders twoPackets (fun j => if j = 0 then 0xc0 else 0) (lBitFor twoPackets)
      (generateFecBitStrings twoPackets (fun j => if j = 0 then 0xc0 else 0) 1 (lBitFor twoPackets)))[0]? = some fec ∧
    ComesBack ⟨[], arrived twoPackets fun k => k = 0⟩ ⟨7, 0, true, fec⟩ (twoPackets.getD 1 blank) := by
  have hin : RowInside twoPackets (fun j => if j = 0 then 0xc0 else 0) 0 := by
    unfold RowInside
    decide
  have hothers : ∀ c < twoPackets.length, rowBit twoPackets (fun j => if j = 0 then 0xc0 else 0) 0 c = true →
      c ≠ 1 → (fun k : Nat => decide (k = 0)) c = true := by decide
  refine ⟨_, rfl, ?_⟩
  exact comesBack_of_rowInside mediaList_twoPackets Nat.zero_lt_one hin rfl (k := 1) rfl (by decide) rfl
    hothers rfl (by decide) (by simp)

/-- A row that protects a second packet, which is not in the list: the lost packet is given its number. -/
theorem not_comesBack_outside :
    MediaList (twoPackets.take 1) 0 ∧ rowBit (twoPackets.take 1) (fun j => if j = 0 then 0xc0 else 0) 0 0 = true ∧
    ∃ fec, (generateFecUlpHeaders (twoPackets.take 1) (fun j => if j = 0 then 0xc0 else 0) (lBitFor (twoPackets.take 1))
      (generateFecBitStrings (twoPackets.take 1) (fun j => if j = 0 then 0xc0 else 0) 1
        (lBitFor (twoPackets.take 1))))[0]? = some fec ∧
    ¬ ComesBack ⟨[], arrived (twoPackets.take 1) fun _ => false⟩ ⟨7, 0, true, fec⟩ (twoPackets.getD 0 blank) := by
  refine ⟨⟨by decide, by decide, by decide, by decide, by decide, by decide⟩, by decide, _, rfl, ?_⟩
  rintro ⟨f, hf, -, r, hr, hseq, -, -⟩
  have hall : ((insertFecPacket ⟨[], arrived (twoPackets.take 1) fun _ => false⟩
      ⟨7, 0, true, fecOf (twoPackets.take 1) (fun j => if j = 0 then 0xc0 else 0) 0⟩).fecPacketList.map
        fun f => (recoverPacket f).map (·.seqNum)) = [some 0] := by decide
  have hmem := List.mem_map_of_mem (f := fun f => (recoverPacket f).map (·.seqNum)) hf
  change _ ∈ ((insertFecPacket ⟨[], arrived (twoPackets.take 1) fun _ => false⟩
      ⟨7, 0, true, fecOf (twoPackets.take 1) (fun j => if j = 0 then 0xc0 else 0) 0⟩).fecPacketList.map
        fun f => (recoverPacket f).map (·.seqNum)) at hmem
  rw [hall, hr] at hmem
  have h0 : r.seqNum = 0 := by simpa using hmem
  rw [h0] at hseq
  exact absurd hseq (by decide)

end WebRtc.Fec
