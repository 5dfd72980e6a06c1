import WebRtc.Tcp.Segments

/-!
# What sending changes

`quiet` forgets what packets change. `Effect W F` says what has come to the environment: packets with
`W` were written, and the only faults were those with `F`. Of each function that sends there is one
lemma of this kind.
-/

namespace WebRtc.Tcp

/-! ## Effects -/

structure Effect (W : List UInt8 → Prop) (F : Fault → Prop) (e e' : Env) : Prop where
  written : ∃ new, e'.written = e.written ++ new ∧ ∀ bytes ∈ new, W bytes
  faults : ∃ new, e'.faults = e.faults ++ new ∧ ∀ fault ∈ new, F fault

namespace Effect

variable {W V : List UInt8 → Prop} {F G : Fault → Prop} {e e' e'' : Env}

theorem refl (W : List UInt8 → Prop) (F : Fault → Prop) (e : Env) : Effect W F e e :=
  ⟨⟨[], (List.append_nil _).symm, fun _ h => by cases h⟩, ⟨[], (List.append_nil _).symm, fun _ h => by cases h⟩⟩

theorem trans (h : Effect W F e e') (h' : Effect W F e' e'') : Effect W F e e'' := by
  obtain ⟨⟨ws, hws, hw⟩, ⟨fs, hfs, hf⟩⟩ := h
  obtain ⟨⟨ws', hws', hw'⟩, ⟨fs', hfs', hf'⟩⟩ := h'
  refine ⟨⟨ws ++ ws', by rw [hws', hws, List.append_assoc], fun b hb => ?_⟩,
    ⟨fs ++ fs', by rw [hfs', hfs, List.append_assoc], fun f hf0 => ?_⟩⟩
  · exact (List.mem_append.1 hb).elim (hw b) (hw' b)
  · exact (List.mem_append.1 hf0).elim (hf f) (hf' f)

theorem mono (h : Effect W F e e') (hW : ∀ b, W b → V b) (hF : ∀ f, F f → G f) : Effect V G e e' := by
  obtain ⟨⟨ws, hws, hw⟩, ⟨fs, hfs, hf⟩⟩ := h
  exact ⟨⟨ws, hws, fun b hb => hW b (hw b hb)⟩, ⟨fs, hfs, fun f hf0 => hF f (hf f hf0)⟩⟩

end Effect

namespace PseudoTcp

variable {W : List UInt8 → Prop} {F : Fault → Prop}

theorem check_effect (t : PseudoTcp) {fault : Fault} {holds : Bool} (h : holds = false → F fault) :
    Effect W F t.env (t.check fault holds).env := by
  cases holds with
  | true => exact Effect.refl _ _ _
  | false =>
    refine ⟨⟨[], (List.append_nil _).symm, fun _ h => by cases h⟩, ⟨[fault], rfl, fun f hf => ?_⟩⟩
    rw [List.mem_singleton.1 hf]
    exact h rfl

/-! ## What stays -/

/-- Without what packets change. -/
def quiet (t : PseudoTcp) : PseudoTcp :=
  { t with
    tsLastack := 0
    tAck := 0
    lastsend := 0
    lasttraffic := 0
    bOutgoing := false
    mss := 0
    msslevel := 0
    cwnd := 0
    env := { t.env with results := [], written := [], faults := [] } }

section
variable {t u : PseudoTcp}

theorem outgoing_of_quiet (h : u.quiet = t.quiet) : u.outgoing = t.outgoing := by
  have h := congrArg outgoing h
  exact h
theorem incoming_of_quiet (h : u.quiet = t.quiet) : u.incoming = t.incoming := by
  have h := congrArg incoming h
  exact h
theorem now_of_quiet (h : u.quiet = t.quiet) : u.env.now = t.env.now := by
  have h := congrArg (fun v => v.env.now) h
  exact h

@[simp] theorem check_quiet (t : PseudoTcp) (fault : Fault) (holds : Bool) : (t.check fault holds).quiet = t.quiet := by
  cases holds <;> rfl

@[simp] theorem check_mss (t : PseudoTcp) (fault : Fault) (holds : Bool) : (t.check fault holds).mss = t.mss := by
  cases holds <;> rfl

theorem packetBytes_congr (h : u.quiet = t.quiet) (seq : UInt32) (flags : UInt8) (payload : List UInt8) :
    u.packetBytes seq flags payload = t.packetBytes seq flags payload := by
  have hconv : u.conv = t.conv := by
    have h := congrArg conv h
    exact h
  have hscale : u.rwndScale = t.rwndScale := by
    have h := congrArg rwndScale h
    exact h
  have hts : u.tsRecent = t.tsRecent := by
    have h := congrArg tsRecent h
    exact h
  rw [packetBytes, packetBytes, hconv, hscale, hts, incoming_of_quiet h, now_of_quiet h]

theorem readPayload_congr (h : u.outgoing.sbuf = t.outgoing.sbuf) (offset len : UInt32) :
    (u.readPayload offset len).2 = (t.readPayload offset len).2 := by
  rw [readPayload, readPayload, h]
  split
  · rfl
  · split <;> rfl

end

/-! ## One packet -/

/-- When a packet is at fault. -/
def PacketFault (t : PseudoTcp) (offset len : UInt32) (fault : Fault) : Prop :=
  fault = .packetSize ∧ maxPacket < headerSize + len.toNat ∨
    fault = .packetData ∧ len ≠ 0 ∧ t.outgoing.sbuf.dataLength < offset.toNat + len.toNat

/-- What a packet is. -/
def PacketWritten (t : PseudoTcp) (seq : UInt32) (flags : UInt8) (offset len : UInt32) (bytes : List UInt8) : Prop :=
  bytes = t.packetBytes seq flags (t.readPayload offset len).2

theorem readPayload_spec (t : PseudoTcp) (offset len : UInt32) :
    (t.readPayload offset len).1.quiet = t.quiet ∧ (t.readPayload offset len).1.mss = t.mss ∧
      Effect (fun _ => False) (t.PacketFault offset len) t.env (t.readPayload offset len).1.env := by
  rw [readPayload]
  split
  · exact ⟨rfl, rfl, Effect.refl _ _ _⟩
  · next hlen =>
    split
    · next hnone =>
      refine ⟨check_quiet _ _ _, check_mss _ _ _, check_effect t fun _ => Or.inr ⟨rfl, hlen, ?_⟩⟩
      rw [FifoBuffer.readOffset_none] at hnone
      have hpos : len.toNat ≠ 0 := fun h0 => hlen (UInt32.toNat_inj.1 h0)
      omega
    · next data hdata =>
      refine ⟨check_quiet _ _ _, check_mss _ _ _, check_effect t fun hfalse => Or.inr ⟨rfl, hlen, ?_⟩⟩
      have hlength := FifoBuffer.readOffset_length hdata
      rw [decide_eq_false_iff_not] at hfalse
      omega

theorem tcpWritePacket_effect (t : PseudoTcp) (bytes : List UInt8) :
    Effect (fun b => b = bytes) F t.env (t.tcpWritePacket bytes).1.env := by
  refine ⟨?_, ⟨[], (List.append_nil _).symm, fun _ h => by cases h⟩⟩
  rw [tcpWritePacket]
  by_cases h : t.env.results.headD .success = .success
  · simp only [if_pos h]
    exact ⟨[bytes], rfl, fun b hb => List.mem_singleton.1 hb⟩
  · simp only [if_neg h]
    exact ⟨[], (List.append_nil _).symm, fun _ h => by cases h⟩

theorem tcpWritePacket_quiet (t : PseudoTcp) (bytes : List UInt8) :
    (t.tcpWritePacket bytes).1.quiet = t.quiet ∧ (t.tcpWritePacket bytes).1.mss = t.mss := ⟨rfl, rfl⟩

/-- The last lines of `packet` change nothing that matters here. -/
theorem packet_parts (t : PseudoTcp) (seq : UInt32) (flags : UInt8) (offset len : UInt32) :
    ∃ checked read sent : PseudoTcp, checked = t.check .packetSize (decide (headerSize + len.toNat ≤ maxPacket)) ∧
      read = (checked.readPayload offset len).1 ∧
      sent = ({ read with tsLastack := checked.incoming.rcvNxt }.tcpWritePacket
        (checked.packetBytes seq flags (checked.readPayload offset len).2)).1 ∧
      (t.packet seq flags offset len).1.quiet = sent.quiet ∧ (t.packet seq flags offset len).1.mss = sent.mss ∧
      (t.packet seq flags offset len).1.env = sent.env := by
  refine ⟨_, _, _, rfl, rfl, rfl, ?_⟩
  rw [packet]
  dsimp only
  split <;> exact ⟨rfl, rfl, rfl⟩

theorem packet_spec (t : PseudoTcp) (seq : UInt32) (flags : UInt8) (offset len : UInt32) :
    (t.packet seq flags offset len).1.quiet = t.quiet ∧ (t.packet seq flags offset len).1.mss = t.mss ∧
      Effect (t.PacketWritten seq flags offset len) (t.PacketFault offset len) t.env
          (t.packet seq flags offset len).1.env := by
  obtain ⟨checked, read, sent, hchecked, hread, hsent, hquiet, hmss, henv⟩ := t.packet_parts seq flags offset len
  have hcquiet : checked.quiet = t.quiet := by rw [hchecked, check_quiet]
  obtain ⟨hrquiet, hrmss, hreffect⟩ := checked.readPayload_spec offset len
  rw [← hread] at hrquiet hrmss hreffect
  have hfault : checked.PacketFault offset len = t.PacketFault offset len := by
    funext f
    rw [PacketFault, PacketFault, outgoing_of_quiet hcquiet]
  have hbytes : checked.packetBytes seq flags (checked.readPayload offset len).2 =
      t.packetBytes seq flags (t.readPayload offset len).2 := by
    rw [packetBytes_congr hcquiet, readPayload_congr (congrArg Outgoing.sbuf (outgoing_of_quiet hcquiet))]
  have hseffect : Effect (t.PacketWritten seq flags offset len) (t.PacketFault offset len) read.env sent.env := by
    rw [hsent, hbytes]
    exact (tcpWritePacket_effect _ _)
  rw [hquiet, hmss, henv]
  refine ⟨?_, ?_, ?_⟩
  · rw [hsent, (tcpWritePacket_quiet _ _).1]
    exact hrquiet.trans hcquiet
  · rw [hsent, (tcpWritePacket_quiet _ _).2]
    exact hrmss.trans (by rw [hchecked, check_mss])
  · have hceffect : Effect (t.PacketWritten seq flags offset len) (t.PacketFault offset len) t.env checked.env := by
      rw [hchecked]
      exact check_effect t fun h => Or.inl ⟨rfl, Nat.lt_of_not_le (of_decide_eq_false h)⟩
    rw [hfault] at hreffect
    exact (hceffect.trans (hreffect.mono (fun _ h => h.elim) fun _ h => h)).trans hseffect

/-! ## A segment -/

/-- A packet of the first bytes of a segment. -/
def SegmentWritten (t : PseudoTcp) (seg : SSegment) (bytes : List UInt8) : Prop :=
  ∃ n ≤ seg.len, t.PacketWritten seg.seq (ctrlFlags seg.bCtrl) (seg.seq - t.outgoing.sndUna) n bytes

def SegmentFault (t : PseudoTcp) (seg : SSegment) (mss : UInt32) (fault : Fault) : Prop :=
  ∃ n, n ≤ seg.len ∧ n ≤ mss ∧ t.PacketFault (seg.seq - t.outgoing.sndUna) n fault

section
variable {t u : PseudoTcp}

theorem segmentWritten_congr (h : u.quiet = t.quiet) (seg : SSegment) :
    u.SegmentWritten seg = t.SegmentWritten seg := by
  funext bytes
  simp only [SegmentWritten, PacketWritten, outgoing_of_quiet h, packetBytes_congr h,
    readPayload_congr (congrArg Outgoing.sbuf (outgoing_of_quiet h))]

theorem segmentFault_congr (h : u.quiet = t.quiet) (seg : SSegment) (mss : UInt32) :
    u.SegmentFault seg mss = t.SegmentFault seg mss := by
  funext fault
  simp only [SegmentFault, PacketFault, outgoing_of_quiet h]

theorem segmentPacket_spec (t : PseudoTcp) (seg : SSegment) {n mss : UInt32} (hn : n ≤ seg.len) (hmss : n ≤ mss) :
    (t.segmentPacket seg n).1.quiet = t.quiet ∧ (t.segmentPacket seg n).1.mss = t.mss ∧
      Effect (t.SegmentWritten seg) (t.SegmentFault seg mss) t.env (t.segmentPacket seg n).1.env := by
  obtain ⟨hquiet, hm, heffect⟩ := t.packet_spec seg.seq (ctrlFlags seg.bCtrl) (seg.seq - t.outgoing.sndUna) n
  exact ⟨hquiet, hm, heffect.mono (fun _ h => ⟨n, hn, h⟩) fun _ h => ⟨n, hn, hmss, h⟩⟩

end

/-- Between the smallest packet and the largest. -/
def MssOk (mss : UInt32) : Prop := 180 ≤ mss.toNat ∧ mss.toNat ≤ 65419

theorem mssOk_of_maximum {maximum : UInt32} (h : maximum ∈ packetMaximums) : MssOk (maximum - packetOverhead) := by
  revert maximum
  have hall : packetMaximums.all fun m => decide (180 ≤ (m - packetOverhead).toNat ∧
      (m - packetOverhead).toNat ≤ 65419) := by
    decide
  intro maximum h
  have hm := List.all_eq_true.1 hall maximum h
  rw [decide_eq_true_eq] at hm
  exact hm

theorem retransmitSmaller_spec {t : PseudoTcp} {seg : SSegment} {nTransmit mss : UInt32} (levels : List UInt32)
    (hn : nTransmit ≤ seg.len) (hmss : nTransmit ≤ mss) (ht : MssOk t.mss)
    (hlevels : ∀ m ∈ levels, m ∈ packetMaximums) :
    (t.retransmitSmaller seg nTransmit levels).1.quiet = t.quiet ∧
      MssOk (t.retransmitSmaller seg nTransmit levels).1.mss ∧
      Effect (t.SegmentWritten seg) (t.SegmentFault seg mss) t.env (t.retransmitSmaller seg nTransmit levels).1.env ∧
      ∀ n, (t.retransmitSmaller seg nTransmit levels).2 = some n → n ≤ nTransmit ∧ 0 < n := by
  induction levels generalizing t nTransmit with
  | nil => exact ⟨rfl, ht, Effect.refl _ _ _, fun n h => by cases h⟩
  | cons maximum levels ih =>
    have hmax := mssOk_of_maximum (hlevels maximum List.mem_cons_self)
    have hrest : ∀ m ∈ levels, m ∈ packetMaximums := fun m hm => hlevels m (List.mem_cons_of_mem _ hm)
    have hlower : (t.lowerMss maximum).quiet = t.quiet := rfl
    rw [retransmitSmaller]
    split
    · next hsmaller =>
      have hle := UInt32.le_of_lt hsmaller
      obtain ⟨hquiet, hm, heffect⟩ := segmentPacket_spec (t.lowerMss maximum) seg (UInt32.le_trans hle hn)
        (UInt32.le_trans hle hmss)
      rw [segmentWritten_congr hlower, segmentFault_congr hlower] at heffect
      rcases hp : (t.lowerMss maximum).segmentPacket seg (maximum - packetOverhead) with ⟨sent, result⟩
      rw [hp] at hquiet hm heffect
      dsimp only at hquiet hm heffect ⊢
      have hsent : MssOk sent.mss := by
        rw [hm]
        exact hmax
      cases result with
      | success =>
        refine ⟨hquiet, hsent, heffect, fun n hsome => ?_⟩
        cases hsome
        refine ⟨hle, UInt32.lt_iff_toNat_lt.2 ?_⟩
        exact Nat.lt_of_lt_of_le (by decide) hmax.1
      | fail => exact ⟨hquiet, hsent, heffect, fun n hsome => by cases hsome⟩
      | tooLarge =>
        obtain ⟨hquiet', hmss', heffect', hsome⟩ := ih (UInt32.le_trans hle hn) (UInt32.le_trans hle hmss) hsent hrest
        rw [segmentWritten_congr (hquiet.trans hlower), segmentFault_congr (hquiet.trans hlower)] at heffect'
        refine ⟨hquiet'.trans hquiet, hmss', heffect.trans heffect', fun n hn' => ?_⟩
        obtain ⟨hle', hpos⟩ := hsome n hn'
        exact ⟨UInt32.le_trans hle' hle, hpos⟩
    · have hlow : MssOk (t.lowerMss maximum).mss := hmax
      obtain ⟨hquiet, hm, heffect, hsome⟩ := ih hn hmss hlow hrest
      rw [segmentWritten_congr hlower, segmentFault_congr hlower] at heffect
      exact ⟨hquiet, hm, heffect, hsome⟩

/-- What `transmit` does, apart from packets that are too large. -/
theorem transmit_spec {t : PseudoTcp} (ht : MssOk t.mss) (before : List SSegment) (seg : SSegment)
    (after : List SSegment)
    (now : UInt32) : ∃ u : PseudoTcp, u.quiet = t.quiet ∧ MssOk u.mss ∧
      Effect (t.SegmentWritten seg) (t.SegmentFault seg t.mss) t.env u.env ∧
      (t.transmit before seg after now = (u, false) ∨ ∃ n, n ≤ seg.len ∧ (seg.len ≠ 0 → 0 < n) ∧ seg.xmit.toNat < 30 ∧
        t.transmit before seg after now = (u.transmitted before seg after n now, true)) := by
  rw [transmit]
  split
  · exact ⟨t, rfl, ht, Effect.refl _ _ _, Or.inl rfl⟩
  · next hmax =>
    have hxmit : seg.xmit.toNat < 30 := by
      rw [UInt8.le_iff_toNat_le, Nat.not_le, maxTransmits] at hmax
      have h15 : (15 : UInt8).toNat = 15 := rfl
      have h30 : (30 : UInt8).toNat = 30 := rfl
      split at hmax <;> omega
    have hle : min seg.len t.mss ≤ seg.len := by
      rw [UInt32.le_iff_toNat_le, toNat_min]
      exact Nat.min_le_left _ _
    have hmss : min seg.len t.mss ≤ t.mss := by
      rw [UInt32.le_iff_toNat_le, toNat_min]
      exact Nat.min_le_right _ _
    have hpos : seg.len ≠ 0 → 0 < min seg.len t.mss := by
      intro h0
      rw [ne_eq, ← UInt32.toNat_inj] at h0
      rw [UInt32.lt_iff_toNat_lt, toNat_min]
      exact Nat.lt_min.2 ⟨Nat.pos_of_ne_zero h0, Nat.lt_of_lt_of_le (by decide) ht.1⟩
    obtain ⟨hquiet, hm, heffect⟩ := t.segmentPacket_spec seg hle hmss
    rcases hp : t.segmentPacket seg (min seg.len t.mss) with ⟨sent, result⟩
    rw [hp] at hquiet hm heffect
    dsimp only at hquiet hm heffect ⊢
    rw [hp]
    have hsent : MssOk sent.mss := by
      rw [hm]
      exact ht
    cases result with
    | success => exact ⟨sent, hquiet, hsent, heffect, Or.inr ⟨_, hle, hpos, hxmit, rfl⟩⟩
    | fail => exact ⟨sent, hquiet, hsent, heffect, Or.inl rfl⟩
    | tooLarge =>
      obtain ⟨hquiet', hm', heffect', hsome⟩ := retransmitSmaller_spec
        (packetMaximums.drop (sent.msslevel + 1)) hle hmss hsent fun m h => List.mem_of_mem_drop h
      rw [segmentWritten_congr hquiet, segmentFault_congr hquiet] at heffect'
      rcases hr : sent.retransmitSmaller seg (min seg.len t.mss)
        (packetMaximums.drop (sent.msslevel + 1)) with ⟨smaller, n⟩
      rw [hr] at hquiet' hm' heffect' hsome
      refine ⟨smaller, hquiet'.trans hquiet, hm', heffect.trans heffect', ?_⟩
      dsimp only
      rw [hr]
      cases n with
      | none => exact Or.inl rfl
      | some n =>
        obtain ⟨hn, hn0⟩ := hsome n rfl
        exact Or.inr ⟨n, UInt32.le_trans hn hle, fun _ => hn0, hxmit, rfl⟩

end PseudoTcp

end WebRtc.Tcp
