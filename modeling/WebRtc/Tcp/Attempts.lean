import WebRtc.Tcp.Queue

/-!
# Attempts to send

`attemptSend` and `transmit` only take the steps of `Sends`, and while the segments are found in the
buffer none of them is at fault. The number of rounds of `attemptSend` is not a limit
(`attemptSendLoop_rounds`).
-/

namespace WebRtc.Tcp

open PseudoTcp

/-! ## No faults -/

theorem Effect.faults_eq {W : List UInt8 → Prop} {e e' : Env} (h : Effect W (fun _ => False) e e') :
    e'.faults = e.faults := by
  obtain ⟨new, hnew, hnone⟩ := h.faults
  cases new with
  | nil => rw [hnew, List.append_nil]
  | cons f new => exact (hnone f List.mem_cons_self).elim

/-- A segment of the list is found in the buffer. -/
theorem no_segmentFault {t : PseudoTcp} {before after : List SSegment} {seg : SSegment} (hq : QueueOk t.outgoing)
    (hc : Contiguous t.outgoing.sndUna t.outgoing.slist) (hm : MssOk t.mss)
    (hlist : t.outgoing.slist = before ++ seg :: after)
    (f : Fault) : ¬ t.SegmentFault seg t.mss f := by
  rintro ⟨n, hlen, hmss, hfault⟩
  rw [UInt32.le_iff_toNat_le] at hlen hmss
  have hmax := hm.2
  have htotal := hq.total
  have hcap := hq.capacity
  have hbound := hq.bounded
  rw [hlist] at hc htotal
  rw [bytesIn_append, bytesIn_cons] at htotal
  have hsize : maxPacket = 65535 := rfl
  have hheader : headerSize = 24 := rfl
  rcases hfault with ⟨-, hlarge⟩ | ⟨-, -, hdata⟩
  · omega
  · have hoffset : (seg.seq - t.outgoing.sndUna).toNat = bytesIn before := by
      rw [hc.offset, UInt32.toNat_ofNat', Nat.mod_eq_of_lt (by omega)]
    omega

theorem Sends.noFault {t u : PseudoTcp} (h : Sends t u) (hq : QueueOk t.outgoing) (hm : MssOk t.mss)
    (hc : Contiguous t.outgoing.sndUna t.outgoing.slist) : u.env.faults = t.env.faults := by
  induction h with
  | quiet _ _ heffect => exact heffect.faults_eq
  | broken => rfl
  | failed hlist _ _ heffect =>
    exact (heffect.mono (fun _ h => h) fun f hf => (no_segmentFault hq hc hm hlist f hf).elim).faults_eq
  | transmitted hlist _ _ heffect =>
    exact (heffect.mono (fun _ h => h) fun f hf => (no_segmentFault hq hc hm hlist f hf).elim).faults_eq
  | trans h _ ih ih' => exact (ih' (h.queueOk hq) (h.mss hm) (h.contiguous hc)).trans (ih hq hm hc)

/-! ## Packets without data -/

theorem packet_ack (t : PseudoTcp) (seq : UInt32) : (t.packet seq 0 0 0).1.quiet = t.quiet ∧
    (t.packet seq 0 0 0).1.mss = t.mss ∧
    Effect (AckWritten t) (fun _ => False) t.env (t.packet seq 0 0 0).1.env := by
  obtain ⟨hquiet, hmss, heffect⟩ := t.packet_spec seq 0 0 0
  refine ⟨hquiet, hmss, heffect.mono (fun b hb => ⟨seq, hb⟩) fun f hf => ?_⟩
  rcases hf with ⟨-, hlarge⟩ | ⟨-, hdata, -⟩
  · exact absurd hlarge (by decide)
  · exact hdata rfl

theorem sends_packet {t : PseudoTcp} (hm : MssOk t.mss) (seq : UInt32) : Sends t (t.packet seq 0 0 0).1 := by
  obtain ⟨hquiet, hmss, heffect⟩ := packet_ack t seq
  exact Sends.quiet hquiet (hmss ▸ hm) heffect

theorem sendAck_sends {t : PseudoTcp} (hm : MssOk t.mss) (sflags : SendFlags) : Sends t (t.sendAck sflags) := by
  rw [sendAck]
  split
  · exact Sends.refl hm
  · split
    · exact sends_packet hm _
    · exact Sends.quiet rfl hm (Effect.refl _ _ _)

/-! ## A segment -/

/-- The first segment is sent again. -/
theorem transmitFirst_sends {t : PseudoTcp} (hq : QueueOk t.outgoing) (hm : MssOk t.mss)
    (hflight : sentIn t.outgoing.slist ≠ 0)
    (now : UInt32) : Sends t (t.transmitFirst now).1 := by
  cases hlist : t.outgoing.slist with
  | nil =>
    rw [hlist] at hflight
    exact absurd rfl hflight
  | cons seg after =>
    have hsent : seg.xmit ≠ 0 := by
      intro h0
      have hfirst := hq.sentFirst
      rw [hlist] at hfirst hflight
      have hafter : ∀ s ∈ seg :: after, s.xmit = 0 := by
        intro s hs
        rcases List.mem_cons.1 hs with rfl | hs
        · exact h0
        · by_contra hne
          exact (List.pairwise_cons.1 hfirst).1 s hs hne h0
      exact hflight (sentIn_of_unsent hafter)
    have hlen : seg.len ≠ 0 := fun h0 => hsent (hq.empty seg (hlist ▸ List.mem_cons_self) h0).1
    obtain ⟨u, hquiet, hmss, heffect, hresult⟩ := transmit_spec hm [] seg after now
    have heq : t.transmitFirst now = t.transmit [] seg after now := by rw [transmitFirst, hlist]
    have hsplit : t.outgoing.slist = [] ++ seg :: after := hlist
    rw [heq]
    rcases hresult with hfail | ⟨n, hn, hpos, hxmit, hsucc⟩
    · rw [hfail]
      exact Sends.failed hsplit hquiet hmss heffect
    · rw [hsucc]
      exact Sends.transmitted hsplit hquiet hmss heffect (fun h0 => absurd h0 hsent) hlen hn (hpos hlen) hxmit
        fun h0 => absurd h0 hsent

theorem available_le (t : PseudoTcp) : t.available.toNat ≤ t.useable.toNat ∧
    t.available.toNat ≤ (UInt32.ofNat t.outgoing.sbuf.dataLength - t.inFlight).toNat := by
  rw [available]
  have hmin := toNat_min (UInt32.ofNat t.outgoing.sbuf.dataLength - t.inFlight) t.mss
  have hle := Nat.min_le_left (UInt32.ofNat t.outgoing.sbuf.dataLength - t.inFlight).toNat t.mss.toNat
  split
  · next h =>
    rw [gt_iff_lt, UInt32.lt_iff_toNat_lt] at h
    split
    · exact ⟨Nat.zero_le _, Nat.zero_le _⟩
    · exact ⟨Nat.le_refl _, by omega⟩
  · next h =>
    rw [gt_iff_lt, UInt32.lt_iff_toNat_lt] at h
    omega

theorem QueueOk.dataLength_lt {o : Outgoing} (h : QueueOk o) : o.sbuf.dataLength < 4294967296 :=
  Nat.lt_of_le_of_lt h.capacity h.bounded

/-- The bytes that are not in flight. -/
theorem QueueOk.waiting {t : PseudoTcp} (h : QueueOk t.outgoing) :
    t.inFlight ≤ UInt32.ofNat t.outgoing.sbuf.dataLength ∧
    (UInt32.ofNat t.outgoing.sbuf.dataLength - t.inFlight).toNat =
        bytesIn t.outgoing.slist - sentIn t.outgoing.slist := by
  have hnat : (UInt32.ofNat t.outgoing.sbuf.dataLength).toNat = bytesIn t.outgoing.slist := by
    rw [UInt32.toNat_ofNat', h.total]
    exact Nat.mod_eq_of_lt h.dataLength_lt
  have hflight : t.inFlight.toNat = sentIn t.outgoing.slist := h.inFlight
  have hle : t.inFlight ≤ UInt32.ofNat t.outgoing.sbuf.dataLength := by
    rw [UInt32.le_iff_toNat_le, hnat, hflight]
    exact sentIn_le _
  exact ⟨hle, by rw [UInt32.toNat_sub_of_le _ _ hle, hnat, hflight]⟩

/-- The segment that is sent next. -/
theorem next_segment {o : Outgoing} (h : QueueOk o) (hwaiting : sentIn o.slist < bytesIn o.slist) :
    ∃ seg after, (o.slist.dropWhile fun s => decide (0 < s.xmit)) = seg :: after ∧
      o.slist = (o.slist.takeWhile fun s => decide (0 < s.xmit)) ++ seg :: after ∧ seg.xmit = 0 ∧ seg.len ≠ 0 ∧
      ∀ s ∈ after, s.xmit = 0 := by
  have hsplit := List.takeWhile_append_dropWhile (p := fun s : SSegment => decide (0 < s.xmit)) (l := o.slist)
  have hbefore := takeWhile_sent o.slist
  have hunsent := h.sentFirst.dropWhile_unsent
  cases hdrop : o.slist.dropWhile fun s => decide (0 < s.xmit) with
  | nil =>
    rw [hdrop, List.append_nil] at hsplit
    rw [hsplit] at hbefore
    rw [sentIn_of_sent hbefore] at hwaiting
    exact absurd hwaiting (Nat.lt_irrefl _)
  | cons seg after =>
    rw [hdrop] at hsplit hunsent
    refine ⟨seg, after, rfl, hsplit.symm, hunsent seg List.mem_cons_self, fun h0 => ?_,
      fun s hs => hunsent s (List.mem_cons_of_mem _ hs)⟩
    -- A segment without bytes is the last one, and then nothing is waiting.
    have hafter : after = [] := by
      cases after with
      | nil => rfl
      | cons s after =>
        have hfilled := h.filled
        rw [← hsplit] at hfilled
        exact absurd h0 ((List.pairwise_cons.1 (List.pairwise_append.1 hfilled).2.1).1 s List.mem_cons_self)
    have hbytes := sentIn_of_sent hbefore
    have hzero : (0 : UInt32).toNat = 0 := rfl
    rw [← hsplit, hafter, sentIn_append, bytesIn_append, hbytes, bytesIn_cons, h0, bytesIn_nil, hzero] at hwaiting
    omega

theorem sendSegment_sends {t : PseudoTcp} (hq : QueueOk t.outgoing) (hm : MssOk t.mss)
    (hn : t.available ≠ 0) (now : UInt32) :
    Sends t (t.sendSegment t.available now).1 := by
  obtain ⟨huseable, hwaiting⟩ := available_le t
  have hpos : 0 < t.available := by
    rw [UInt32.lt_iff_toNat_lt]
    exact Nat.pos_of_ne_zero fun h0 => hn (UInt32.toNat_inj.1 h0)
  rw [hq.waiting.2] at hwaiting
  have hmore : sentIn t.outgoing.slist < bytesIn t.outgoing.slist := by
    have h0 := UInt32.lt_iff_toNat_lt.1 hpos
    omega
  obtain ⟨seg, after, hdrop, hsplit, hseg, hlen, hafter⟩ := next_segment hq hmore
  obtain ⟨-, hnew, -, hle, -⟩ := breakSegment_spec 0 after hseg hlen hpos
  obtain ⟨hxmit0, hlen0⟩ := hnew _ List.mem_cons_self
  have hbefore := takeWhile_sent t.outgoing.slist
  have hbroken := Sends.broken hsplit hbefore hseg hlen hpos hafter
  have hsend : t.sendSegment t.available now =
      (t.withSlist ((t.outgoing.slist.takeWhile fun s => decide (0 < s.xmit)) ++
          (breakSegment seg t.available).1 :: ((breakSegment seg t.available).2 ++ after))).transmit
        (t.outgoing.slist.takeWhile fun s => decide (0 < s.xmit)) (breakSegment seg t.available).1
        ((breakSegment seg t.available).2 ++ after) now := by
    rw [sendSegment, hdrop]
  rw [hsend]
  generalize (t.outgoing.slist.takeWhile fun s => decide (0 < s.xmit)) = before at hsplit hbefore hbroken ⊢
  generalize hv : t.withSlist (before ++ (breakSegment seg t.available).1 ::
    ((breakSegment seg t.available).2 ++ after)) = v
    at hbroken ⊢
  have hvlist : v.outgoing.slist = before ++ (breakSegment seg t.available).1 ::
      ((breakSegment seg t.available).2 ++ after) := by
    rw [← hv]
    rfl
  have hvuse : v.useable = t.useable := by
    rw [← hv]
    rfl
  obtain ⟨u, hquiet, hmss, heffect, hresult⟩ := transmit_spec (t := v) (by rw [← hv]; exact hm) before
    (breakSegment seg t.available).1 ((breakSegment seg t.available).2 ++ after) now
  refine hbroken.trans ?_
  rcases hresult with hfail | ⟨n, hn', hpos', hxmit, hsucc⟩
  · rw [hfail]
    exact Sends.failed hvlist hquiet hmss heffect
  · rw [hsucc]
    refine Sends.transmitted hvlist hquiet hmss heffect (fun _ => hbefore) hlen0 hn' (hpos' hlen0) hxmit fun _ => ?_
    rw [hvuse]
    have h1 := UInt32.le_iff_toNat_le.1 hn'
    have h2 := UInt32.le_iff_toNat_le.1 hle
    omega

/-! ## All rounds -/

theorem attemptSendLoop_sends {t : PseudoTcp} (hq : QueueOk t.outgoing) (hm : MssOk t.mss) (now : UInt32) (rounds : Nat)
    (sflags : SendFlags) : Sends t (attemptSendLoop now rounds sflags t) := by
  induction rounds generalizing t sflags with
  | zero => exact Sends.refl hm
  | succ rounds ih =>
    have hcheck : t.check .sendDifference (decide (t.inFlight ≤ UInt32.ofNat t.outgoing.sbuf.dataLength)) = t := by
      rw [decide_eq_true hq.waiting.1]
      rfl
    rw [attemptSendLoop, hcheck]
    split
    · exact sendAck_sends hm sflags
    · next hn =>
      split
      · exact Sends.refl hm
      · have hsegment := sendSegment_sends hq hm hn now
        rcases hs : t.sendSegment t.available now with ⟨u, sent⟩
        rw [hs] at hsegment
        cases sent with
        | false => exact hsegment
        | true => exact hsegment.trans (ih (hsegment.queueOk hq) (hsegment.mss hm) .none)

theorem attemptSend_sends {t : PseudoTcp} (hq : QueueOk t.outgoing) (hm : MssOk t.mss) (sflags : SendFlags) :
    Sends t (t.attemptSend sflags) := by
  have hcwnd : Sends t { t with cwnd := t.mss } := Sends.quiet rfl hm (Effect.refl _ _ _)
  have hrestarted (now : UInt32) (rounds : Nat) :
      Sends { t with cwnd := t.mss } (attemptSendLoop now rounds sflags { t with cwnd := t.mss }) :=
    attemptSendLoop_sends (t := { t with cwnd := t.mss }) hq hm now rounds sflags
  rw [attemptSend]
  split
  · exact hcwnd.trans (hrestarted _ _)
  · exact attemptSendLoop_sends hq hm _ _ _

end WebRtc.Tcp
