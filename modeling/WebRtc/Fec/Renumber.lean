import WebRtc.Fec.Decoder

/-!
# Renumbering a stream

`c` is added to every sequence number of a stream, and to the SN base of its FEC packets. The order of
the lists is that of `IsNewerSequenceNumber`, which wraps, so it moves along, but for two numbers
0x8000 apart. The two tests that throw packets away (`bigGap`, `tooOld`) subtract the numbers as they
are, and take a step over 65535 for a gap. A run on which the tests give the same answers on the new
numbers recovers the same packets (`decodeRun_kept`).
-/

namespace WebRtc.Fec

open Bytes

/-! ## Adding `c` -/

/-- The bytes 2 and 3 are the sequence number of a media packet and the SN base of a FEC packet. -/
def Packet.renumber (c : UInt16) (p : Packet) : Packet where
  length := p.length
  data := fun j =>
    if j = 2 then hi16 (parseSequenceNumber p.data + c).toNat
    else if j = 3 then lo16 (parseSequenceNumber p.data + c).toNat
    else p.data j

def ReceivedPacket.renumber (c : UInt16) (rx : ReceivedPacket) : ReceivedPacket :=
  { rx with seqNum := rx.seqNum + c, pkt := rx.pkt.renumber c }

def RecoveredPacket.renumber (c : UInt16) (r : RecoveredPacket) : RecoveredPacket :=
  { r with seqNum := r.seqNum + c, pkt := r.pkt.renumber c }

def ProtectedPacket.renumber (c : UInt16) (p : ProtectedPacket) : ProtectedPacket where
  seqNum := p.seqNum + c
  pkt := p.pkt.map (Packet.renumber c)

def FecPacket.renumber (c : UInt16) (f : FecPacket) : FecPacket where
  seqNum := f.seqNum + c
  ssrc := f.ssrc
  pkt := f.pkt.renumber c
  protectedPktList := f.protectedPktList.map (ProtectedPacket.renumber c)

def Decoder.renumber (c : UInt16) (s : Decoder) : Decoder where
  fecPacketList := s.fecPacketList.map (FecPacket.renumber c)
  recoveredPacketList := s.recoveredPacketList.map (RecoveredPacket.renumber c)

theorem Packet.renumber_data (c : UInt16) (p : Packet) {j : Nat} (h2 : j ≠ 2) (h3 : j ≠ 3) :
    (p.renumber c).data j = p.data j := by
  simp only [Packet.renumber, if_neg h2, if_neg h3]

theorem parseSequenceNumber_renumber (c : UInt16) (p : Packet) :
    parseSequenceNumber (p.renumber c).data = parseSequenceNumber p.data + c := by
  apply UInt16.toNat_inj.1
  have hlt := (parseSequenceNumber p.data + c).toNat_lt
  have h2 : (p.renumber c).data 2 = hi16 (parseSequenceNumber p.data + c).toNat := rfl
  have h3 : (p.renumber c).data 3 = lo16 (parseSequenceNumber p.data + c).toNat := rfl
  rw [parseSequenceNumber, h2, h3, read16_write, UInt16.toNat_ofNat']
  omega

theorem add_right_comm16 (a b c : UInt16) : a + b + c = a + c + b := by
  rw [UInt16.add_assoc, UInt16.add_comm b c, ← UInt16.add_assoc]

/-! ## Numbers whose order is kept -/

/-- The order of any two of the numbers is kept. -/
def Kept (c : UInt16) (M : UInt16 → Prop) : Prop :=
  ∀ a b, M a → M b → isNewerSequenceNumber (a + c) (b + c) = isNewerSequenceNumber a b

section Lists
variable {c : UInt16} {M : UInt16 → Prop}

theorem Kept.lessThan (h : Kept c M) {a b : UInt16} (ha : M a) (hb : M b) :
    lessThan (a + c) (b + c) = Fec.lessThan a b := h b a hb ha

theorem sortPackets_map (h : Kept c M) {α : Type} {seq : α → UInt16} {f : α → α} (hf : ∀ a, seq (f a) = seq a + c)
    {l : List α} (hl : ∀ a ∈ l, M (seq a)) : sortPackets seq (l.map f) = (sortPackets seq l).map f := by
  refine (List.map_insertionSort _ _ f l fun a ha b hb => ?_).symm
  rw [hf, hf, h.lessThan (hl b hb) (hl a ha)]

theorem lowerBoundLoop_map {α β : Type} {less : α → Bool} {less' : β → Bool} {f : α → β} {l : List α}
    (h : ∀ a ∈ l, less' (f a) = less a) (fuel first len : Nat) :
    lowerBoundLoop less' (l.map f) fuel first len = lowerBoundLoop less l fuel first len := by
  induction fuel generalizing first len with
  | zero => rfl
  | succ fuel ih =>
    have hany : ((l.map f)[first + len / 2]?).any less' = (l[first + len / 2]?).any less := by
      rw [List.getElem?_map]
      cases hg : l[first + len / 2]? with
      | none => rfl
      | some a => exact h a (List.mem_of_getElem? hg)
    simp only [lowerBoundLoop, hany, ih]

theorem lowerBound_map {α β : Type} {less : α → Bool} {less' : β → Bool} {f : α → β} {l : List α}
    (h : ∀ a ∈ l, less' (f a) = less a) : lowerBound less' (l.map f) = lowerBound less l := by
  rw [lowerBound, lowerBound, List.length_map, lowerBoundLoop_map h]

theorem setIntersection_renumber {α β : Type} {ltab : α → β → Bool} {ltba : β → α → Bool} {f : α → α} {g : β → β}
    {as : List α} {bs : List β} (hab : ∀ a ∈ as, ∀ b ∈ bs, ltab (f a) (g b) = ltab a b)
    (hba : ∀ a ∈ as, ∀ b ∈ bs, ltba (g b) (f a) = ltba b a) :
    setIntersection ltab ltba (as.map f) (bs.map g) = (setIntersection ltab ltba as bs).map f := by
  induction as generalizing bs with
  | nil => rfl
  | cons a as ih =>
    have hskip : (bs.map g).dropWhile (fun b => !ltab (f a) b && ltba b (f a)) =
        (bs.dropWhile fun b => !ltab a b && ltba b a).map g := by
      refine dropWhile_map_congr fun b hb => ?_
      rw [hab a List.mem_cons_self b hb, hba a List.mem_cons_self b hb]
    have hsub : (bs.dropWhile fun b => !ltab a b && ltba b a).Sublist bs := List.dropWhile_sublist _
    rw [List.map_cons, setIntersection, setIntersection, hskip]
    generalize (bs.dropWhile fun b => !ltab a b && ltba b a) = ds at hsub
    cases ds with
    | nil => rfl
    | cons d ds =>
      have hmem : ∀ b ∈ d :: ds, b ∈ bs := fun b hb => hsub.subset hb
      simp only [List.map_cons, hab a List.mem_cons_self d (hmem d List.mem_cons_self)]
      split
      · rw [← List.map_cons, ih (fun x hx b hb => hab x (List.mem_cons_of_mem a hx) b (hmem b hb))
          fun x hx b hb => hba x (List.mem_cons_of_mem a hx) b (hmem b hb)]
      · rw [List.map_cons, ih (fun x hx b hb => hab x (List.mem_cons_of_mem a hx) b
          (hmem b (List.mem_cons_of_mem d hb)))
          fun x hx b hb => hba x (List.mem_cons_of_mem a hx) b (hmem b (List.mem_cons_of_mem d hb))]

end Lists

/-! ## What the decoder reads -/

section Reads
variable (c : UInt16)

theorem lBitOf_renumber (p : Packet) : lBitOf (p.renumber c) = lBitOf p := rfl

theorem protectedSeqs_renumber (p : Packet) : protectedSeqs (p.renumber c) = (protectedSeqs p).map (· + c) := by
  have hbit : (fun k => maskBit (p.renumber c).data 12 k) = fun k => maskBit p.data 12 k := by
    funext k
    rw [maskBit, Packet.renumber_data c p (by omega) (by omega), maskBit]
  rw [protectedSeqs, lBitOf_renumber, hbit, parseSequenceNumber_renumber, protectedSeqs, List.map_map]
  refine List.map_congr_left fun k _ => ?_
  rw [Function.comp, add_right_comm16]

theorem assignAll_renumber (p : ProtectedPacket) (rs : List RecoveredPacket) :
    assignAll (p.renumber c) (rs.map (RecoveredPacket.renumber c)) =
      ((assignAll p rs).1.renumber c, (assignAll p rs).2.map (RecoveredPacket.renumber c)) := by
  induction rs generalizing p with
  | nil => rfl
  | cons r rs ih =>
    rw [List.map_cons, assignAll, assignAll]
    simp only [RecoveredPacket.renumber, ProtectedPacket.renumber, UInt16.add_left_inj]
    split
    · exact ih { p with pkt := some r.pkt }
    · rfl

theorem assignRecovered_renumber (ps : List ProtectedPacket) (rs : List RecoveredPacket) :
    assignRecovered (ps.map (ProtectedPacket.renumber c)) (rs.map (RecoveredPacket.renumber c)) =
      (assignRecovered ps rs).map (ProtectedPacket.renumber c) := by
  induction ps generalizing rs with
  | nil => rfl
  | cons p ps ih => rw [List.map_cons, assignRecovered, assignAll_renumber, ih, assignRecovered, List.map_cons]

theorem initRecovery_renumber (f : FecPacket) : initRecovery (f.renumber c) = initRecovery f := by
  have hdata : ∀ j, j ≠ 2 → j ≠ 3 → (f.renumber c).pkt.data j = f.pkt.data j := fun j h2 h3 =>
    Packet.renumber_data c f.pkt h2 h3
  have hbit : lBitOf (f.renumber c).pkt = lBitOf f.pkt := rfl
  have hlen : (f.renumber c).pkt.length = f.pkt.length := rfl
  have hssrc : (f.renumber c).ssrc = f.ssrc := rfl
  rw [initRecovery, initRecovery]
  simp only [hbit, hlen, hssrc, hdata 8 (by decide) (by decide), hdata 9 (by decide) (by decide),
    hdata 10 (by decide) (by decide), hdata 11 (by decide) (by decide)]
  refine if_congr Iff.rfl rfl (if_congr Iff.rfl rfl ?_)
  congr 2
  funext j
  split
  · exact hdata j (by omega) (by omega)
  · split
    · rfl
    · split
      · have hfec : fecHeaderSize = 10 := rfl
        exact hdata _ (by omega) (by omega)
      · rfl

theorem xorPackets_renumber (p : Packet) (r : Recovery) : xorPackets (p.renumber c) r = xorPackets p r := by
  have hlen : (p.renumber c).length = p.length := rfl
  have hrtp : rtpHeaderSize = 12 := rfl
  rw [xorPackets, xorPackets]
  simp only [hlen]
  congr 1
  funext j
  split
  · rw [Packet.renumber_data c p (by omega) (by omega)]
  · rfl

/-- A packet in the course of its recovery, whose number may have been set. -/
def Recovery.renumber (c : UInt16) (isSet : Bool) (r : Recovery) : Recovery :=
  { r with seqNum := if isSet then r.seqNum + c else r.seqNum }

theorem foldl_recoverStep_renumber (ps : List ProtectedPacket) (isSet : Bool) (r : Recovery) :
    (ps.map (ProtectedPacket.renumber c)).foldl recoverStep (r.renumber c isSet) =
      (ps.foldl recoverStep r).renumber c (isSet || ps.any fun p => p.pkt.isNone) := by
  induction ps generalizing isSet r with
  | nil => simp
  | cons p ps ih =>
    rw [List.map_cons, List.foldl_cons, List.foldl_cons, List.any_cons]
    cases hp : p.pkt with
    | none =>
      have hstep : recoverStep (r.renumber c isSet) (p.renumber c) = (recoverStep r p).renumber c true := by
        simp [recoverStep, ProtectedPacket.renumber, hp, Recovery.renumber]
      rw [hstep, ih]
      simp
    | some pkt =>
      have hstep : recoverStep (r.renumber c isSet) (p.renumber c) = (recoverStep r p).renumber c isSet := by
        simp [recoverStep, ProtectedPacket.renumber, hp, xorPackets_renumber]
        rfl
      rw [hstep, ih]
      simp

theorem finishRecovery_renumber (r : Recovery) :
    finishRecovery (r.renumber c true) = (finishRecovery r).map (RecoveredPacket.renumber c) := by
  rw [finishRecovery, finishRecovery]
  simp only [Recovery.renumber, if_true]
  split
  · rfl
  · have hlt := r.seqNum.toNat_lt
    have hparse : UInt16.ofNat (read16 (hi16 r.seqNum.toNat) (lo16 r.seqNum.toNat)) = r.seqNum := by
      rw [read16_write, Nat.mod_eq_of_lt hlt, UInt16.ofNat_toNat]
    simp only [Option.map_some, RecoveredPacket.renumber, Packet.renumber, parseSequenceNumber]
    congr 3
    funext j
    by_cases h2 : j = 2
    · subst h2
      simp [hparse]
    · by_cases h3 : j = 3
      · subst h3
        simp [hparse]
      · simp [h2, h3]

theorem numCoveredPacketsMissing_renumber (f : FecPacket) :
    numCoveredPacketsMissing (f.renumber c) = numCoveredPacketsMissing f := by
  rw [numCoveredPacketsMissing, numCoveredPacketsMissing, FecPacket.renumber, List.countP_map]
  congr 2
  funext p
  simp [ProtectedPacket.renumber]

theorem recoverPacket_renumber {f : FecPacket} (h : numCoveredPacketsMissing f = 1) :
    recoverPacket (f.renumber c) = (recoverPacket f).map (RecoveredPacket.renumber c) := by
  have hany : (f.protectedPktList.any fun p => p.pkt.isNone) = true := by
    have hpos : 0 < f.protectedPktList.countP fun p => p.pkt.isNone := by
      rw [numCoveredPacketsMissing] at h
      omega
    obtain ⟨p, hp, hnone⟩ := List.countP_pos_iff.1 hpos
    exact List.any_eq_true.2 ⟨p, hp, hnone⟩
  rw [recoverPacket, recoverPacket, initRecovery_renumber]
  cases initRecovery f with
  | none => rfl
  | some r =>
    have hfold := foldl_recoverStep_renumber c f.protectedPktList false r
    rw [hany] at hfold
    exact (congrArg finishRecovery hfold).trans (finishRecovery_renumber c _)

end Reads

/-! ## The state -/

/-- The numbers of a state are among `M` (media) and `F` (FEC). -/
structure Decoder.Within (M F : UInt16 → Prop) (s : Decoder) : Prop where
  recovered : ∀ r ∈ s.recoveredPacketList, M r.seqNum
  fec : ∀ f ∈ s.fecPacketList, F f.seqNum
  protects : ∀ f ∈ s.fecPacketList, ∀ p ∈ f.protectedPktList, M p.seqNum

section State
variable {c : UInt16} {M F : UInt16 → Prop}

theorem Decoder.Within.sub {s : Decoder} (h : s.Within M F) {fs : List FecPacket}
    (hsub : ∀ f ∈ fs, f ∈ s.fecPacketList) :
    Decoder.Within M F ⟨fs, s.recoveredPacketList⟩ :=
  ⟨h.recovered, fun f hf => h.fec f (hsub f hf), fun f hf => h.protects f (hsub f hf)⟩

theorem modify_map {α β : Type} {f : α → β} {g : α → α} {k : β → β} (h : ∀ a, k (f a) = f (g a))
    (l : List α) (i : Nat) :
    (l.map f).modify i k = (l.modify i g).map f := by
  apply List.ext_getElem?
  intro j
  rw [List.getElem?_modify, List.getElem?_map, List.getElem?_map, List.getElem?_modify]
  cases l[j]? with
  | none => rfl
  | some a =>
    by_cases hij : i = j
    · simp [hij, h]
    · simp [hij]

theorem cover_renumber (hM : Kept c M) {packet : RecoveredPacket} (hp : M packet.seqNum) {f : FecPacket}
    (hf : ∀ p ∈ f.protectedPktList, M p.seqNum) :
    cover (packet.renumber c) (f.renumber c) = (cover packet f).renumber c := by
  have hi : lowerBound (fun p : ProtectedPacket => lessThan p.seqNum (packet.seqNum + c))
        (f.protectedPktList.map (ProtectedPacket.renumber c)) =
      lowerBound (fun p : ProtectedPacket => lessThan p.seqNum packet.seqNum) f.protectedPktList :=
    lowerBound_map fun p hpm => hM.lessThan (hf p hpm) hp
  simp only [cover, FecPacket.renumber, RecoveredPacket.renumber, hi]
  congr 1
  refine modify_map (fun p => ?_) _ _
  simp only [ProtectedPacket.renumber, UInt16.add_left_inj]
  split <;> rfl

theorem updateCovering_renumber (hM : Kept c M) {packet : RecoveredPacket} (hp : M packet.seqNum) {fs : List FecPacket}
    (hfs : ∀ f ∈ fs, ∀ p ∈ f.protectedPktList, M p.seqNum) :
    updateCoveringFecPackets (packet.renumber c) (fs.map (FecPacket.renumber c)) =
      (updateCoveringFecPackets packet fs).map (FecPacket.renumber c) := by
  rw [updateCoveringFecPackets, updateCoveringFecPackets, List.map_map, List.map_map]
  exact List.map_congr_left fun f hf => cover_renumber hM hp (hfs f hf)

/-- Covering changes no number. -/
theorem cover_seqs (packet : RecoveredPacket) (f : FecPacket) :
    (cover packet f).seqNum = f.seqNum ∧
      (cover packet f).protectedPktList.map ProtectedPacket.seqNum = f.protectedPktList.map ProtectedPacket.seqNum := by
  refine ⟨rfl, ?_⟩
  have h := modify_map (f := ProtectedPacket.seqNum)
    (g := fun p : ProtectedPacket => if p.seqNum = packet.seqNum then { p with pkt := some packet.pkt } else p)
    (k := fun n => n) (fun p => by split <;> rfl) f.protectedPktList
    (lowerBound (fun p : ProtectedPacket => lessThan p.seqNum packet.seqNum) f.protectedPktList)
  rw [cover, ← h]
  exact List.modify_id _ _

theorem within_cover {s : Decoder} (h : s.Within M F) (packet : RecoveredPacket) :
    (∀ f ∈ updateCoveringFecPackets packet s.fecPacketList, F f.seqNum) ∧
      ∀ f ∈ updateCoveringFecPackets packet s.fecPacketList, ∀ p ∈ f.protectedPktList, M p.seqNum := by
  refine ⟨fun f hf => ?_, fun f hf p hp => ?_⟩
  · obtain ⟨g, hg, rfl⟩ := List.mem_map.1 hf
    exact h.fec g hg
  · obtain ⟨g, hg, rfl⟩ := List.mem_map.1 hf
    have hmem : p.seqNum ∈ g.protectedPktList.map ProtectedPacket.seqNum := by
      rw [← (cover_seqs packet g).2]
      exact List.mem_map_of_mem hp
    obtain ⟨q, hq, hqp⟩ := List.mem_map.1 hmem
    rw [← hqp]
    exact h.protects g hg q hq

theorem add_renumber (hM : Kept c M) {s : Decoder} (h : s.Within M F) {packet : RecoveredPacket}
    (hp : M packet.seqNum) :
    (s.renumber c).add (packet.renumber c) = (s.add packet).renumber c := by
  have hall : ∀ r ∈ s.recoveredPacketList ++ [packet], M r.seqNum := by
    intro r hr
    rcases List.mem_append.1 hr with hr | hr
    · exact h.recovered r hr
    · rw [List.mem_singleton.1 hr]
      exact hp
  have hsort := sortPackets_map hM (f := RecoveredPacket.renumber c) (fun _ => rfl) hall
  rw [List.map_append, List.map_singleton] at hsort
  rw [Decoder.add, Decoder.add, Decoder.renumber, Decoder.renumber]
  dsimp only
  rw [hsort, updateCovering_renumber hM hp h.protects]

theorem within_add {s : Decoder} (h : s.Within M F) {packet : RecoveredPacket} (hp : M packet.seqNum) :
    (s.add packet).Within M F where
  recovered := by
    intro r hr
    rcases List.mem_append.1 ((List.mem_insertionSort _).1 hr) with hr | hr
    · exact h.recovered r hr
    · rw [List.mem_singleton.1 hr]
      exact hp
  fec := (within_cover h packet).1
  protects := (within_cover h packet).2

theorem insertMediaPacket_renumber (hM : Kept c M) {s : Decoder} (h : s.Within M F) {rx : ReceivedPacket}
    (hrx : M rx.seqNum) : insertMediaPacket (s.renumber c) (rx.renumber c) = (insertMediaPacket s rx).renumber c := by
  have hany : ((s.renumber c).recoveredPacketList.any fun r => (rx.renumber c).seqNum = r.seqNum) =
      s.recoveredPacketList.any fun r => rx.seqNum = r.seqNum := by
    rw [Decoder.renumber, List.any_map]
    congr 1
    funext r
    simp [RecoveredPacket.renumber, ReceivedPacket.renumber]
  rw [insertMediaPacket, insertMediaPacket, hany]
  split
  · rfl
  · exact @add_renumber c M F hM s h ⟨rx.seqNum, false, rx.pkt⟩ hrx

theorem newFecPacket_renumber (hM : Kept c M) {rx : ReceivedPacket} (hrx : ∀ n ∈ protectedSeqs rx.pkt, M n)
    {rs : List RecoveredPacket} (hrs : ∀ r ∈ rs, M r.seqNum) :
    newFecPacket (rx.renumber c) (rs.map (RecoveredPacket.renumber c)) = (newFecPacket rx rs).renumber c := by
  have hlist : (protectedSeqs (rx.pkt.renumber c)).map (fun n => (⟨n, none⟩ : ProtectedPacket)) =
      ((protectedSeqs rx.pkt).map fun n => (⟨n, none⟩ : ProtectedPacket)).map (ProtectedPacket.renumber c) := by
    rw [protectedSeqs_renumber, List.map_map, List.map_map]
    rfl
  have hps : ∀ p ∈ (protectedSeqs rx.pkt).map fun n => (⟨n, none⟩ : ProtectedPacket), M p.seqNum := by
    intro p hp
    obtain ⟨n, hn, rfl⟩ := List.mem_map.1 hp
    exact hrx n hn
  simp only [newFecPacket, FecPacket.renumber, ReceivedPacket.renumber, assignRecoveredPackets, hlist]
  generalize ((protectedSeqs rx.pkt).map fun n => (⟨n, none⟩ : ProtectedPacket)) = ps at hps
  have hinter : setIntersection (fun (r : RecoveredPacket) (p : ProtectedPacket) => lessThan r.seqNum p.seqNum)
      (fun p r => lessThan p.seqNum r.seqNum) (rs.map (RecoveredPacket.renumber c))
        (ps.map (ProtectedPacket.renumber c)) =
        (setIntersection (fun r p => lessThan r.seqNum p.seqNum) (fun p r => lessThan p.seqNum r.seqNum) rs ps).map
          (RecoveredPacket.renumber c) :=
    setIntersection_renumber (fun a ha b hb => hM.lessThan (hrs a ha) (hps b hb))
      fun a ha b hb => hM.lessThan (hps b hb) (hrs a ha)
  rw [hinter, assignRecovered_renumber]

/-- The entries of a new FEC packet have the numbers of its mask. -/
theorem newFecPacket_seqs (rx : ReceivedPacket) (rs : List RecoveredPacket) :
    (newFecPacket rx rs).protectedPktList.map ProtectedPacket.seqNum = protectedSeqs rx.pkt := by
  have hall : ∀ (p : ProtectedPacket) (rs : List RecoveredPacket), (assignAll p rs).1.seqNum = p.seqNum := by
    intro p rs
    induction rs generalizing p with
    | nil => rfl
    | cons r rs ih =>
      rw [assignAll]
      split
      · rw [ih]
      · rfl
  have hrec : ∀ (ps : List ProtectedPacket) (rs : List RecoveredPacket),
      (assignRecovered ps rs).map ProtectedPacket.seqNum = ps.map ProtectedPacket.seqNum := by
    intro ps rs
    induction ps generalizing rs with
    | nil => rfl
    | cons p ps ih => rw [assignRecovered, List.map_cons, List.map_cons, hall, ih]
  rw [newFecPacket, assignRecoveredPackets, hrec, List.map_map]
  exact List.map_id _

/-- The oldest FEC packet goes when there are too many. -/
def capFec (l : List FecPacket) : List FecPacket := if l.length > maxMediaPackets then l.tail else l

theorem capFec_map (c : UInt16) (l : List FecPacket) :
    capFec (l.map (FecPacket.renumber c)) = (capFec l).map (FecPacket.renumber c) := by
  rw [capFec, capFec, List.length_map]
  split
  · rw [List.map_tail]
  · rfl

theorem mem_of_mem_capFec {l : List FecPacket} {f : FecPacket} (h : f ∈ capFec l) : f ∈ l := by
  rw [capFec] at h
  split at h
  · exact List.mem_of_mem_tail h
  · exact h

theorem insertFecPacket_eq (s : Decoder) (rx : ReceivedPacket) :
    insertFecPacket s rx =
      if s.fecPacketList.any fun f => rx.seqNum = f.seqNum then s
      else if (protectedSeqs rx.pkt).isEmpty then s
      else ⟨capFec (sortPackets FecPacket.seqNum (s.fecPacketList ++ [newFecPacket rx s.recoveredPacketList])),
        s.recoveredPacketList⟩ := rfl

theorem insertFecPacket_renumber (hM : Kept c M) (hF : Kept c F) {s : Decoder} (h : s.Within M F) {rx : ReceivedPacket}
    (hrx : F rx.seqNum) (hps : ∀ n ∈ protectedSeqs rx.pkt, M n) :
    insertFecPacket (s.renumber c) (rx.renumber c) = (insertFecPacket s rx).renumber c := by
  have hany : ((s.renumber c).fecPacketList.any fun f => (rx.renumber c).seqNum = f.seqNum) =
      s.fecPacketList.any fun f => rx.seqNum = f.seqNum := by
    rw [Decoder.renumber, List.any_map]
    congr 1
    funext f
    simp [FecPacket.renumber, ReceivedPacket.renumber]
  have hempty : (protectedSeqs (rx.renumber c).pkt).isEmpty = (protectedSeqs rx.pkt).isEmpty := by
    rw [ReceivedPacket.renumber, protectedSeqs_renumber, List.isEmpty_map]
  have hall : ∀ f ∈ s.fecPacketList ++ [newFecPacket rx s.recoveredPacketList], F f.seqNum := by
    intro f hf
    rcases List.mem_append.1 hf with hf | hf
    · exact h.fec f hf
    · rw [List.mem_singleton.1 hf]
      exact hrx
  have hsort := sortPackets_map hF (f := FecPacket.renumber c) (fun _ => rfl) hall
  rw [List.map_append, List.map_singleton, ← newFecPacket_renumber hM hps h.recovered] at hsort
  rw [insertFecPacket_eq, insertFecPacket_eq, hany, hempty]
  split
  · rfl
  split
  · rfl
  · simp only [Decoder.renumber] at hsort ⊢
    rw [hsort, capFec_map]

theorem within_insertFecPacket {s : Decoder} (h : s.Within M F) {rx : ReceivedPacket}
    (hrx : F rx.seqNum) (hps : ∀ n ∈ protectedSeqs rx.pkt, M n) : (insertFecPacket s rx).Within M F := by
  have hmem : ∀ f ∈ sortPackets FecPacket.seqNum (s.fecPacketList ++ [newFecPacket rx s.recoveredPacketList]),
      F f.seqNum ∧ ∀ p ∈ f.protectedPktList, M p.seqNum := by
    intro f hf
    rcases List.mem_append.1 ((List.mem_insertionSort _).1 hf) with hf | hf
    · exact ⟨h.fec f hf, h.protects f hf⟩
    · rw [List.mem_singleton.1 hf]
      refine ⟨hrx, fun p hp => hps _ ?_⟩
      rw [← newFecPacket_seqs rx s.recoveredPacketList]
      exact List.mem_map_of_mem hp
  rw [insertFecPacket_eq]
  split
  · exact h
  split
  · exact h
  · exact ⟨h.recovered, fun f hf => (hmem f (mem_of_mem_capFec hf)).1, fun f hf => (hmem f (mem_of_mem_capFec hf)).2⟩

/-- What the numbers of a received packet have to be among. -/
def ReceivedPacket.Within (M F : UInt16 → Prop) (rx : ReceivedPacket) : Prop :=
  if rx.isFec then F rx.seqNum ∧ ∀ n ∈ protectedSeqs rx.pkt, M n else M rx.seqNum

theorem within_dropOldest {s : Decoder} (h : s.Within M F) :
    Decoder.Within M F { s with fecPacketList := s.fecPacketList.tail } :=
  h.sub fun _ hf => List.mem_of_mem_tail hf

/-- **One packet**, if it is judged old or not as before. -/
theorem insertPacket_renumber (hM : Kept c M) (hF : Kept c F) {s : Decoder} (h : s.Within M F) {rx : ReceivedPacket}
    (hrx : rx.Within M F) (hold : tooOld (s.renumber c) (rx.renumber c) = tooOld s rx) :
    insertPacket (s.renumber c) (rx.renumber c) = (insertPacket s rx).renumber c ∧ (insertPacket s rx).Within M F := by
  have hdrop : (if tooOld (s.renumber c) (rx.renumber c) then
        { s.renumber c with fecPacketList := (s.renumber c).fecPacketList.tail } else s.renumber c) =
      (if tooOld s rx then { s with fecPacketList := s.fecPacketList.tail } else s).renumber c := by
    rw [hold]
    split
    · simp only [Decoder.renumber, List.map_tail]
    · rfl
  have hin : (if tooOld s rx then { s with fecPacketList := s.fecPacketList.tail } else s).Within M F := by
    split
    · exact within_dropOldest h
    · exact h
  rw [insertPacket, insertPacket, hdrop]
  generalize (if tooOld s rx then { s with fecPacketList := s.fecPacketList.tail } else s) = t at hin
  have hfec : (rx.renumber c).isFec = rx.isFec := rfl
  rw [ReceivedPacket.Within] at hrx
  rw [hfec]
  cases hr : rx.isFec with
  | true =>
    rw [hr, if_pos rfl] at hrx
    exact ⟨insertFecPacket_renumber hM hF hin hrx.1 hrx.2, within_insertFecPacket hin hrx.1 hrx.2⟩
  | false =>
    rw [hr, if_neg Bool.false_ne_true] at hrx
    refine ⟨insertMediaPacket_renumber hM hin hrx, ?_⟩
    simp only [Bool.false_eq_true, if_false, insertMediaPacket]
    split
    · exact hin
    · exact within_add hin hrx

/-- Every packet is judged old or not as before, whatever is inserted on the way. -/
def OldKept (c : UInt16) : Decoder → List ReceivedPacket → Prop
  | _, [] => True
  | s, rx :: rest => tooOld (s.renumber c) (rx.renumber c) = tooOld s rx ∧ OldKept c (insertPacket s rx) rest

theorem discardOldPackets_map (c : UInt16) (l : List RecoveredPacket) :
    discardOldPackets (l.map (RecoveredPacket.renumber c)) = (discardOldPackets l).map
        (RecoveredPacket.renumber c) := by
  rw [discardOldPackets, discardOldPackets, List.length_map, List.map_drop]

theorem insertPackets_renumber (hM : Kept c M) (hF : Kept c F) {s : Decoder} (h : s.Within M F)
    {received : List ReceivedPacket} (hrx : ∀ rx ∈ received, rx.Within M F) (hold : OldKept c s received) :
    insertPackets (s.renumber c) (received.map (ReceivedPacket.renumber c)) = (insertPackets s received).renumber c ∧
      (insertPackets s received).Within M F := by
  have hfold : (received.map (ReceivedPacket.renumber c)).foldl insertPacket (s.renumber c) =
      (received.foldl insertPacket s).renumber c ∧ (received.foldl insertPacket s).Within M F := by
    induction received generalizing s with
    | nil => exact ⟨rfl, h⟩
    | cons rx rest ih =>
      obtain ⟨heq, hin⟩ := insertPacket_renumber hM hF h (hrx rx List.mem_cons_self) hold.1
      rw [List.map_cons, List.foldl_cons, List.foldl_cons, heq]
      exact ih hin (fun r hr => hrx r (List.mem_cons_of_mem rx hr)) hold.2
  rw [insertPackets, insertPackets, hfold.1]
  refine ⟨?_, ?_⟩
  · simp only [Decoder.renumber, discardOldPackets_map]
  · exact ⟨fun r hr => hfold.2.recovered r (List.mem_of_mem_drop hr), hfold.2.fec, hfold.2.protects⟩

/-- A recovered packet has the number of the packet that was missing. -/
theorem recoverPacket_seqNum {f : FecPacket} (h1 : numCoveredPacketsMissing f = 1) {r : RecoveredPacket}
    (h : recoverPacket f = some r) : ∃ p ∈ f.protectedPktList, p.pkt = none ∧ p.seqNum = r.seqNum := by
  have hfold : ∀ (ps : List ProtectedPacket) (t : Recovery),
      (∃ p ∈ ps, p.pkt = none ∧ p.seqNum = (ps.foldl recoverStep t).seqNum) ∨
      (ps.foldl recoverStep t).seqNum = t.seqNum ∧ ∀ p ∈ ps, p.pkt.isNone = false := by
    intro ps t
    induction ps generalizing t with
    | nil => exact Or.inr ⟨rfl, fun p hp => (by cases hp)⟩
    | cons p ps ih =>
      rw [List.foldl_cons]
      rcases ih (recoverStep t p) with ⟨q, hq, hseq⟩ | ⟨hseq, hsome⟩
      · exact Or.inl ⟨q, List.mem_cons_of_mem p hq, hseq⟩
      · cases hp : p.pkt with
        | none =>
          refine Or.inl ⟨p, List.mem_cons_self, hp, ?_⟩
          rw [hseq]
          simp [recoverStep, hp]
        | some pkt =>
          refine Or.inr ⟨?_, ?_⟩
          · rw [hseq]
            simp [recoverStep, hp, xorPackets]
          · intro q hq
            rcases List.mem_cons.1 hq with rfl | hq
            · rw [hp]
              rfl
            · exact hsome q hq
  rw [recoverPacket] at h
  obtain ⟨t, -, hfin⟩ := Option.bind_eq_some_iff.1 h
  have hseq : r.seqNum = (f.protectedPktList.foldl recoverStep t).seqNum := by
    rw [finishRecovery] at hfin
    split at hfin
    · cases hfin
    · rw [← Option.some.inj hfin]
  rw [hseq]
  rcases hfold f.protectedPktList t with hex | ⟨-, hall⟩
  · exact hex
  · have hzero : f.protectedPktList.countP (fun p => p.pkt.isNone) = 0 :=
      List.countP_eq_zero.2 fun p hp => by rw [hall p hp]; exact Bool.false_ne_true
    rw [numCoveredPacketsMissing, hzero] at h1
    cases h1

theorem mem_without {seen rest : List FecPacket} {fec : FecPacket} : ∀ g ∈ seen ++ rest, g ∈ seen ++ fec :: rest := by
  intro g hg
  rcases List.mem_append.1 hg with hg | hg
  · exact List.mem_append_left _ hg
  · exact List.mem_append_right _ (List.mem_cons_of_mem fec hg)

theorem attemptLoop_renumber (hM : Kept c M) (fuel : Nat) {seen rest : List FecPacket}
    {recovered : List RecoveredPacket}
    (h : Decoder.Within M F ⟨seen ++ rest, recovered⟩) :
    attemptLoop (sortPackets RecoveredPacket.seqNum) fuel (seen.map (FecPacket.renumber c))
        (rest.map (FecPacket.renumber c)) (recovered.map (RecoveredPacket.renumber c)) =
      ((attemptLoop (sortPackets RecoveredPacket.seqNum) fuel seen rest recovered).1.renumber c,
        (attemptLoop (sortPackets RecoveredPacket.seqNum) fuel seen rest recovered).2.map
          (RecoveredPacket.renumber c)) := by
  induction fuel generalizing seen rest recovered with
  | zero => simp [attemptLoop, Decoder.renumber]
  | succ fuel ih =>
    cases rest with
    | nil => simp [attemptLoop, Decoder.renumber]
    | cons f rest =>
      -- Without `f`, and with `f` seen.
      have hdrop : Decoder.Within M F ⟨seen ++ rest, recovered⟩ := h.sub mem_without
      have hkeep : Decoder.Within M F ⟨(seen ++ [f]) ++ rest, recovered⟩ := by
        rw [List.append_assoc]
        exact h
      rw [List.map_cons, attemptLoop, attemptLoop, numCoveredPacketsMissing_renumber]
      split
      · rename_i hone
        rw [recoverPacket_renumber c hone]
        cases hr : recoverPacket f with
        | none => exact ih hdrop
        | some packet =>
          have hp : M packet.seqNum := by
            obtain ⟨p, hp, -, hseq⟩ := recoverPacket_seqNum hone hr
            rw [← hseq]
            exact h.protects f (List.mem_append_right _ List.mem_cons_self) p hp
          have hadd := add_renumber hM hdrop hp
          have hin := within_add hdrop hp
          simp only [Decoder.add, Decoder.renumber, Decoder.mk.injEq, List.map_append] at hadd
          have hdisc : Decoder.Within M F ⟨[] ++ updateCoveringFecPackets packet (seen ++ rest),
              discardOldPackets (sortPackets RecoveredPacket.seqNum (recovered ++ [packet]))⟩ :=
            ⟨fun r hr => hin.recovered r (List.mem_of_mem_drop hr), hin.fec, hin.protects⟩
          have hnext := ih hdisc
          simp only [Option.map_some]
          rw [hadd.1, hadd.2, discardOldPackets_map]
          rw [List.map_nil] at hnext
          rw [hnext]
          rfl
      · split
        · exact ih hdrop
        · rw [← ih hkeep, List.map_append, List.map_singleton]

end State

/-! ## Runs -/

/-- The media numbers a call may compare: those there are, and those that arrive. -/
def mediaNumbers (s : Decoder) (received : List ReceivedPacket) (n : UInt16) : Prop :=
  (∃ r ∈ s.recoveredPacketList, r.seqNum = n) ∨ (∃ f ∈ s.fecPacketList, ∃ p ∈ f.protectedPktList, p.seqNum = n) ∨
    ∃ rx ∈ received, if rx.isFec then n ∈ protectedSeqs rx.pkt else rx.seqNum = n

/-- The numbers of FEC packets a call may compare. -/
def fecNumbers (s : Decoder) (received : List ReceivedPacket) (n : UInt16) : Prop :=
  (∃ f ∈ s.fecPacketList, f.seqNum = n) ∨ ∃ rx ∈ received, rx.isFec = true ∧ rx.seqNum = n

/-- The state a call inserts into. -/
def afterGap (s : Decoder) (received : List ReceivedPacket) : Decoder := if bigGap s received then ⟨[], []⟩ else s

/-- The tests of a call give the same answers on the new numbers. -/
structure CallKept (c : UInt16) (s : Decoder) (received : List ReceivedPacket) : Prop where
  gap : bigGap (s.renumber c) (received.map (ReceivedPacket.renumber c)) = bigGap s received
  old : OldKept c (afterGap s received) received
  media : Kept c (mediaNumbers (afterGap s received) received)
  fec : Kept c (fecNumbers (afterGap s received) received)

/-- **One call.** -/
theorem decodeFec_renumber {c : UInt16} {s : Decoder} {received : List ReceivedPacket} (h : CallKept c s received) :
    decodeFec (s.renumber c) (received.map (ReceivedPacket.renumber c)) =
      ((decodeFec s received).1.renumber c, (decodeFec s received).2.map (RecoveredPacket.renumber c)) := by
  have hgap : afterGap (s.renumber c) (received.map (ReceivedPacket.renumber c)) =
      (afterGap s received).renumber c := by
    rw [afterGap, afterGap, h.gap]
    split <;> rfl
  have hs : (afterGap s received).Within (mediaNumbers (afterGap s received) received)
      (fecNumbers (afterGap s received) received) :=
    ⟨fun r hr => Or.inl ⟨r, hr, rfl⟩, fun f hf => Or.inl ⟨f, hf, rfl⟩, fun f hf p hp =>
      Or.inr (Or.inl ⟨f, hf, p, hp, rfl⟩)⟩
  have hrx : ∀ rx ∈ received, rx.Within (mediaNumbers (afterGap s received) received)
      (fecNumbers (afterGap s received) received) := by
    intro rx hrx
    rw [ReceivedPacket.Within]
    split
    · rename_i hfec
      exact ⟨Or.inr ⟨rx, hrx, hfec, rfl⟩, fun n hn => Or.inr (Or.inr ⟨rx, hrx, by rw [if_pos hfec]; exact hn⟩)⟩
    · rename_i hfec
      exact Or.inr (Or.inr ⟨rx, hrx, if_neg hfec ▸ rfl⟩)
  obtain ⟨hins, hin⟩ := insertPackets_renumber h.media h.fec hs hrx h.old
  have hcall : ∀ (t : Decoder) (rxs : List ReceivedPacket), decodeFec t rxs =
      attemptRecover (sortPackets RecoveredPacket.seqNum) (insertPackets (afterGap t rxs) rxs) := fun t rxs => rfl
  rw [hcall, hcall, hgap, hins, attemptRecover, attemptRecover]
  have hlen : ((insertPackets (afterGap s received) received).renumber c).fecPacketList.length =
      (insertPackets (afterGap s received) received).fecPacketList.length := List.length_map _
  rw [hlen]
  exact @attemptLoop_renumber c _ _ h.media _ [] _ _ hin

/-- `DecodeFEC` call by call: the packets recovered by each call. -/
def decodeRun : Decoder → List (List ReceivedPacket) → List (List RecoveredPacket)
  | _, [] => []
  | s, received :: calls => (decodeFec s received).2 :: decodeRun (decodeFec s received).1 calls

/-- Every call of a run is kept. -/
def RunKept (c : UInt16) : Decoder → List (List ReceivedPacket) → Prop
  | _, [] => True
  | s, received :: calls => CallKept c s received ∧ RunKept c (decodeFec s received).1 calls

theorem decodeRun_kept {c : UInt16} {s : Decoder} {calls : List (List ReceivedPacket)} (h : RunKept c s calls) :
    decodeRun (s.renumber c) (calls.map (List.map (ReceivedPacket.renumber c))) =
      (decodeRun s calls).map (List.map (RecoveredPacket.renumber c)) := by
  induction calls generalizing s with
  | nil => rfl
  | cons received calls ih =>
    rw [List.map_cons, decodeRun, decodeFec_renumber h.1, ih h.2, decodeRun, List.map_cons]

/-- From the start, the renumbered stream recovers the renumbered packets, call by call. -/
def Commutes (c : UInt16) (calls : List (List ReceivedPacket)) : Prop :=
  decodeRun ⟨[], []⟩ (calls.map (List.map (ReceivedPacket.renumber c))) =
    (decodeRun ⟨[], []⟩ calls).map (List.map (RecoveredPacket.renumber c))

/-- **Whole runs.** -/
theorem commutes_of_runKept {c : UInt16} {calls : List (List ReceivedPacket)} (h : RunKept c ⟨[], []⟩ calls) :
    Commutes c calls := decodeRun_kept h

/-- A FEC packet that protects the packets 3 and 4, and packet 3. -/
def fecFive : ReceivedPacket := ⟨5, 0, true, ⟨14, fun j => if j = 3 then 3 else if j = 12 then 0xc0 else 0⟩⟩
def mediaThree : ReceivedPacket := ⟨3, 0, false, ⟨12, fun j => if j = 0 then 0x80 else if j = 3 then 3 else 0⟩⟩

/-- Far from 65535 packet 4 is recovered under either numbering. -/
theorem commutes_ten : (decodeRun ⟨[], []⟩ [[fecFive, mediaThree]]).map (List.map RecoveredPacket.seqNum) = [[4]] ∧
    Commutes 10 [[fecFive, mediaThree]] := by
  have hmedia : ∀ n, mediaNumbers ⟨[], []⟩ [fecFive, mediaThree] n → n = 3 ∨ n = 4 := by
    rintro n (⟨r, hr, -⟩ | ⟨f, hf, -⟩ | ⟨rx, hrx, hn⟩)
    · cases hr
    · cases hf
    · rcases List.mem_pair.1 hrx with rfl | rfl
      · have hps : n ∈ protectedSeqs fecFive.pkt := hn
        rw [show protectedSeqs fecFive.pkt = [3, 4] by decide] at hps
        simpa using hps
      · exact Or.inl hn.symm
  have hfec : ∀ n, fecNumbers ⟨[], []⟩ [fecFive, mediaThree] n → n = 5 := by
    rintro n (⟨f, hf, -⟩ | ⟨rx, hrx, h1, h2⟩)
    · cases hf
    · rcases List.mem_pair.1 hrx with rfl | rfl
      · exact h2.symm
      · cases h1
  refine ⟨by decide, commutes_of_runKept ⟨⟨by decide, ⟨by decide, by decide, trivial⟩, ?_, ?_⟩, trivial⟩⟩
  · intro a b ha hb
    rcases hmedia a ha with rfl | rfl <;> rcases hmedia b hb with rfl | rfl <;> decide
  · intro a b ha hb
    rw [hfec a ha, hfec b hb]
    decide

/-- Packet 3 arrives after the FEC packet, as 65535 after 1. -/
theorem not_commutes_wrap : ¬ Commutes 65532 [[fecFive], [mediaThree]] := by
  intro h
  have hlen := congrArg (List.map List.length) h
  revert hlen
  decide

end WebRtc.Fec
