import WebRtc.Tcp.Moves

/-!
# Both ends of the queue

`queue` adds to the last segment, or one more, and `release` takes from the front what was acknowledged.
`EndsSegment`: an ack ends where a segment ends. Otherwise the first segment keeps its number while bytes
are cut from it, and the list does not lie over the buffer any more (`Shifted`).
-/

namespace WebRtc.Tcp

open PseudoTcp CInt

/-! ## The back -/

/-- The list after `len` bytes more. -/
inductive Queued (o : Outgoing) (bCtrl : Bool) (len : UInt32) : List SSegment → Prop
  | merged {init : List SSegment} {last : SSegment} (hlist : o.slist = init ++ [last]) (hkind : last.bCtrl = bCtrl)
      (hunsent : last.xmit = 0) : Queued o bCtrl len (init ++ [{ last with len := last.len + len }])
  | appended (hlast : ∀ init last, o.slist = init ++ [last] → ¬ (last.bCtrl = bCtrl ∧ last.xmit = 0)) :
      Queued o bCtrl len (o.slist ++ [{ seq := o.sndUna + UInt32.ofNat o.sbuf.dataLength, len, bCtrl }])

section
variable {t : PseudoTcp} {o : Outgoing} {data : List UInt8} {bCtrl : Bool} {len : UInt32} {slist : List SSegment}

theorem QueueOk.toNat_remaining (h : QueueOk o) :
    (UInt32.ofNat o.sbuf.getWriteRemaining).toNat = o.sbuf.bufferLength - o.sbuf.dataLength := by
  have hbound := h.bounded
  rw [FifoBuffer.getWriteRemaining, szSub_eq h.capacity (by omega), UInt32.toNat_ofNat']
  omega

theorem toNat_numBytes_le (data : List UInt8) : (numBytes data).toNat ≤ data.length := by
  rw [numBytes, UInt32.toNat_ofNat']
  exact Nat.mod_le _ _

/-- What `queue` changes. -/
theorem queue_frame (t : PseudoTcp) (data : List UInt8) (bCtrl : Bool) :
    (t.queue data bCtrl).1 = { t.check .controlQueued
        (decide (numBytes data ≤ UInt32.ofNat t.outgoing.sbuf.getWriteRemaining) || !bCtrl) with
      outgoing := (t.queue data bCtrl).1.outgoing } ∧
    (t.queue data bCtrl).1.outgoing.sndUna = t.outgoing.sndUna ∧
    (t.queue data bCtrl).1.outgoing.sndNxt = t.outgoing.sndNxt := by
  refine ⟨rfl, ?_, ?_⟩ <;> simp [queue]

theorem queue_spec (h : QueueOk t.outgoing) (data : List UInt8) (bCtrl : Bool) : ∃ len : UInt32,
    len.toNat = min (numBytes data).toNat (t.outgoing.sbuf.bufferLength - t.outgoing.sbuf.dataLength) ∧
    Queued t.outgoing bCtrl len (t.queue data bCtrl).1.outgoing.slist ∧
    (t.queue data bCtrl).1.outgoing.sbuf.dataLength = t.outgoing.sbuf.dataLength + len.toNat ∧
    (t.queue data bCtrl).1.outgoing.sbuf.bufferLength = t.outgoing.sbuf.bufferLength := by
  have hroom := h.toNat_remaining
  have hlast : ∀ init last, t.outgoing.slist = init ++ [last] → t.outgoing.slist.getLast? = some last ∧
      t.outgoing.slist.dropLast = init := by
    intro init last hlist
    simp [hlist]
  simp only [queue, check_outgoing]
  generalize hlen : (if numBytes data > UInt32.ofNat t.outgoing.sbuf.getWriteRemaining
    then UInt32.ofNat t.outgoing.sbuf.getWriteRemaining else numBytes data) = len
  have hmin : len.toNat = min (numBytes data).toNat (t.outgoing.sbuf.bufferLength - t.outgoing.sbuf.dataLength) := by
    rw [← hlen]
    split
    · next hlarge =>
      rw [gt_iff_lt, UInt32.lt_iff_toNat_lt] at hlarge
      omega
    · next hfits =>
      rw [UInt32.not_lt, UInt32.le_iff_toNat_le] at hfits
      omega
  have hwrite := FifoBuffer.write_size t.outgoing.sbuf (data.take len.toNat)
  have hshort := toNat_numBytes_le data
  rw [List.length_take] at hwrite
  have hseq : UInt32.ofNat (t.outgoing.sndUna.toNat + t.outgoing.sbuf.dataLength) =
      t.outgoing.sndUna + UInt32.ofNat t.outgoing.sbuf.dataLength := by
    rw [UInt32.ofNat_add, UInt32.ofNat_toNat]
  refine ⟨len, hmin, ?_, by omega, hwrite.2.1⟩
  rw [hseq]
  rcases List.eq_nil_or_concat' t.outgoing.slist with hnil | ⟨init, last, hlist⟩
  · have happended : Queued t.outgoing bCtrl len (t.outgoing.slist ++
        [{ seq := t.outgoing.sndUna + UInt32.ofNat t.outgoing.sbuf.dataLength, len, bCtrl }]) :=
      .appended fun init last hlist => by simp [hnil] at hlist
    rw [hnil] at happended ⊢
    exact happended
  · obtain ⟨hsome, hinit⟩ := hlast init last hlist
    rw [hsome]
    dsimp only
    split
    · next hkind =>
      rw [hinit]
      exact .merged hlist hkind.1 hkind.2
    · next hkind =>
      refine .appended fun init' last' hlist' => ?_
      rw [(hlast init' last' hlist').1] at hsome
      cases hsome
      exact hkind

/-- The queue with the bytes, which are there. -/
theorem QueueOk.queued (h : QueueOk o) (hq : Queued o bCtrl len slist) {sbuf : FifoBuffer}
    (hdata : sbuf.dataLength = o.sbuf.dataLength + len.toNat) (hbuffer : sbuf.bufferLength = o.sbuf.bufferLength)
    (hroom : len.toNat ≤ o.sbuf.bufferLength - o.sbuf.dataLength)
    (hctrl : bCtrl = true → o.slist = [] ∧ len ≠ 0) : QueueOk { o with slist, sbuf } := by
  have htotal := h.total
  have hbound := h.bounded
  have hcap := h.capacity
  have hzero : (0 : UInt32).toNat = 0 := rfl
  cases hq with
  | @merged init last hlist hkind hunsent =>
    have hflight := h.inFlight
    have hfirst := h.sentFirst
    have hfilled := h.filled
    have hempty := h.empty
    rw [hlist] at htotal hflight hfirst hfilled hempty
    simp only [bytesIn_append, bytesIn_cons, bytesIn_nil] at htotal
    have hsum : (last.len + len).toNat = last.len.toNat + len.toNat := by
      rw [UInt32.toNat_add]
      omega
    obtain ⟨hinit, -, hacross⟩ := sentFirst_append.1 hfirst
    obtain ⟨hfinit, -, hfacross⟩ := List.pairwise_append.1 hfilled
    refine ⟨?_, ?_, ?_, ?_, ?_, ?_, ?_⟩
    · simp only [bytesIn_append, bytesIn_cons, bytesIn_nil, hsum]
      omega
    · dsimp only
      omega
    · dsimp only
      omega
    · refine sentFirst_append.2 ⟨hinit, List.pairwise_singleton _ _, fun s hs t ht hne => ?_⟩
      rw [List.mem_singleton.1 ht] at hne
      exact absurd hunsent hne
    · simpa [SSegment.sentSize, hunsent] using hflight
    · refine List.pairwise_append.2 ⟨hfinit, List.pairwise_singleton _ _, fun s hs _ _ => ?_⟩
      exact hfacross s hs last List.mem_cons_self
    · intro s hs h0
      rcases List.mem_append.1 hs with hs | hs
      · exact hempty s (List.mem_append_left _ hs) h0
      · rw [List.mem_singleton.1 hs] at h0 ⊢
        refine hempty last (List.mem_append_right _ List.mem_cons_self) (UInt32.toNat_inj.1 ?_)
        have hnat := congrArg UInt32.toNat h0
        dsimp only at hnat
        omega
  | appended hlast =>
    -- A segment without bytes would have been the last one, and not control data.
    have hfull : ∀ s ∈ o.slist, s.len ≠ 0 := by
      rcases List.eq_nil_or_concat' o.slist with hnil | ⟨init, last, hlist⟩
      · simp [hnil]
      · intro s hs h0
        obtain ⟨hx, hc⟩ := h.empty s hs h0
        have hfilled := h.filled
        rw [hlist] at hs hfilled
        rcases List.mem_append.1 hs with hs | hs
        · exact (List.pairwise_append.1 hfilled).2.2 s hs last List.mem_cons_self h0
        · rw [List.mem_singleton.1 hs] at hx hc
          cases hb : bCtrl with
          | false => exact hlast init last hlist ⟨hc.trans hb.symm, hx⟩
          | true => simp [(hctrl hb).1] at hlist
    refine ⟨?_, ?_, ?_, ?_, ?_, ?_, ?_⟩
    · simp only [bytesIn_append, bytesIn_cons, bytesIn_nil, htotal, hdata, Nat.add_zero]
    · dsimp only
      omega
    · dsimp only
      omega
    · refine sentFirst_append.2 ⟨h.sentFirst, List.pairwise_singleton _ _, fun s hs t ht hne => ?_⟩
      rw [List.mem_singleton.1 ht] at hne
      exact absurd rfl hne
    · simpa [SSegment.sentSize] using h.inFlight
    · exact List.pairwise_append.2 ⟨h.filled, List.pairwise_singleton _ _, fun s hs _ _ => hfull s hs⟩
    · intro s hs h0
      rcases List.mem_append.1 hs with hs | hs
      · exact h.empty s hs h0
      · rw [List.mem_singleton.1 hs] at h0 ⊢
        cases hb : bCtrl with
        | false => exact ⟨rfl, rfl⟩
        | true => exact absurd h0 (hctrl hb).2

theorem Queued.sentIn_eq (hq : Queued o bCtrl len slist) : sentIn slist = sentIn o.slist := by
  cases hq with
  | merged hlist _ hunsent => simp [hlist, SSegment.sentSize, hunsent]
  | appended => simp [SSegment.sentSize]

theorem Queued.contiguous (hq : Queued o bCtrl len slist) (h : Contiguous o.sndUna o.slist)
    (htotal : bytesIn o.slist = o.sbuf.dataLength) : Contiguous o.sndUna slist := by
  cases hq with
  | merged hlist _ _ =>
    rw [hlist, contiguous_append] at h
    exact contiguous_append.2 ⟨h.1, h.2.1, trivial⟩
  | appended => exact contiguous_append.2 ⟨h, by rw [htotal], trivial⟩

end

/-- Bytes to send, or the connect message. -/
theorem Sending.queued {t : PseudoTcp} (h : Sending t) (data : List UInt8) (bCtrl : Bool) (hstate : t.state ≠ .listen)
    (hctrl : bCtrl = true → t.outgoing.slist = [] ∧ 0 < (numBytes data).toNat ∧ (numBytes data).toNat ≤ 4) :
    Sending (t.queue data bCtrl).1 ∧ (InPlace t → InPlace (t.queue data bCtrl).1) := by
  obtain ⟨len, hlen, hqueued, hdata, hbuffer⟩ := queue_spec h.queue data bCtrl
  obtain ⟨hframe, huna, hnxt⟩ := queue_frame t data bCtrl
  have hroom := h.room
  have hremaining := h.queue.toNat_remaining
  have hzero : (0 : UInt32).toNat = 0 := rfl
  have hempty : bCtrl = true → t.outgoing.sbuf.dataLength = 0 := by
    intro hb
    rw [← h.queue.total, (hctrl hb).1, bytesIn_nil]
  have hheld : (decide (numBytes data ≤ UInt32.ofNat t.outgoing.sbuf.getWriteRemaining) || !bCtrl) = true := by
    cases bCtrl with
    | false => simp
    | true =>
      have hsize := hctrl rfl
      have hnone := hempty rfl
      simp only [Bool.not_true, Bool.or_false, decide_eq_true_eq, UInt32.le_iff_toNat_le]
      omega
  rw [hheld, check_true] at hframe
  generalize (t.queue data bCtrl).1 = u at hframe hqueued hdata hbuffer huna hnxt ⊢
  rcases hout : u.outgoing with ⟨slist, sndNxt, sndUna, sbuf⟩
  rw [hout] at hframe hqueued hdata hbuffer huna hnxt
  dsimp only at hqueued hdata hbuffer huna hnxt
  rw [huna, hnxt] at hframe
  rw [hframe]
  have hok : QueueOk { t.outgoing with slist, sbuf } :=
    h.queue.queued hqueued hdata hbuffer (by omega) fun hb => ⟨(hctrl hb).1, fun h0 => by
      have hsize := hctrl hb
      have hnone := hempty hb
      rw [h0] at hlen
      omega⟩
  refine ⟨⟨hok, h.mss, h.advised, ?_, ?_, ?_, fun hs => absurd hs hstate⟩, fun hi => ⟨?_, hi.faults⟩⟩
  · dsimp only
    omega
  · dsimp only
    rw [hqueued.sentIn_eq]
    exact h.timer
  · dsimp only
    rw [hqueued.sentIn_eq]
    exact h.recover
  · exact hqueued.contiguous hi.contiguous h.queue.total

/-! ## The front -/

/-- The list without its first `n` bytes. -/
inductive Released (n : Nat) (slist : List SSegment) : List SSegment → Prop
  | whole (acked rest : List SSegment) (hlist : slist = acked ++ rest) (hacked : bytesIn acked = n) :
      Released n slist rest
  | cut (acked rest : List SSegment) (seg part : SSegment) (hlist : slist = acked ++ seg :: rest)
      (hacked : bytesIn acked < n) (hseq : part.seq = seg.seq) (hxmit : part.xmit = seg.xmit)
      (hkind : part.bCtrl = seg.bCtrl) (hlen : n + part.len.toNat = bytesIn acked + seg.len.toNat)
        (hpart : part.len ≠ 0) :
      Released n slist (part :: rest)

theorem Released.cons {n : Nat} {s : SSegment} {slist slist' : List SSegment} (h : Released n slist slist') :
    Released (s.len.toNat + n) (s :: slist) slist' := by
  cases h with
  | whole acked rest hlist hacked => exact .whole (s :: acked) _ (by rw [hlist]; rfl) (by simp [hacked])
  | cut acked rest seg part hlist hacked hseq hxmit hkind hlen hpart =>
    refine .cut (s :: acked) rest seg part (by rw [hlist]; rfl) ?_ hseq hxmit hkind ?_ hpart
    · rw [bytesIn_cons]
      omega
    · rw [bytesIn_cons]
      omega

theorem release_spec (largest : UInt32) {n : UInt32} {slist : List SSegment} (h : n.toNat ≤ bytesIn slist) :
    Released n.toNat slist (release largest n slist).1 ∧ (release largest n slist).2.2 = true := by
  have hzero : (0 : UInt32).toNat = 0 := rfl
  induction slist generalizing largest n with
  | nil =>
    have hn : n = 0 := UInt32.toNat_inj.1 (Nat.le_zero.1 h)
    rw [hn]
    exact ⟨.whole [] _ rfl rfl, rfl⟩
  | cons seg slist ih =>
    rw [release]
    split
    · next hn =>
      rw [hn]
      exact ⟨.whole [] _ rfl rfl, rfl⟩
    · next hn =>
      split
      · next hlt =>
        have hsum := toNat_split hlt
        have hpos := UInt32.lt_iff_toNat_lt.1 hlt
        have hne : n.toNat ≠ 0 := fun h0 => hn (UInt32.toNat_inj.1 h0)
        refine ⟨.cut [] slist seg _ rfl ?_ rfl rfl rfl ?_ fun h0 => ?_, rfl⟩
        · rw [bytesIn_nil]
          omega
        · dsimp only
          rw [bytesIn_nil]
          omega
        · dsimp only at h0
          rw [h0] at hsum
          omega
      · next hge =>
        rw [UInt32.not_lt] at hge
        have hsub := UInt32.toNat_sub_of_le _ _ hge
        rw [UInt32.le_iff_toNat_le] at hge
        rw [bytesIn_cons] at h
        obtain ⟨hreleased, hheld⟩ := ih (if seg.len > largest then seg.len else largest) (n := n - seg.len) (by omega)
        refine ⟨?_, hheld⟩
        have hcons := hreleased.cons (s := seg)
        rwa [hsub, Nat.add_sub_cancel' hge] at hcons

/-- The ack ends where a segment ends. -/
def EndsSegment (o : Outgoing) (ack : UInt32) : Prop :=
  ∃ acked rest, o.slist = acked ++ rest ∧ bytesIn acked = (ack - o.sndUna).toNat

section
variable {o : Outgoing} {ack : UInt32} {slist acked rest : List SSegment} {n : Nat}

/-- The first segment of what is left is cut only if the ack ends inside it. -/
theorem bytesIn_ne_of_cut {seg : SSegment} (hlo : bytesIn acked < n) (hhi : n < bytesIn acked + seg.len.toNat) :
    ¬ ∃ a b, acked ++ seg :: rest = a ++ b ∧ bytesIn a = n := by
  rintro ⟨a, b, hab, hn⟩
  rcases List.append_eq_append_iff.1 hab with ⟨c, rfl, hc⟩ | ⟨c, rfl, hc⟩
  · cases c with
    | nil =>
      rw [List.append_nil] at hn
      omega
    | cons s c =>
      obtain ⟨rfl, -⟩ := List.cons.inj hc
      rw [bytesIn_append, bytesIn_cons] at hn
      omega
  · rw [bytesIn_append] at hlo
    omega

/-- The first bytes have all been transmitted. -/
theorem sentIn_prefix (h : SentFirst (acked ++ rest)) (hle : bytesIn acked ≤ sentIn (acked ++ rest)) :
    sentIn acked = bytesIn acked := by
  obtain ⟨-, -, hacross⟩ := sentFirst_append.1 h
  by_cases hall : ∀ s ∈ acked, s.xmit ≠ 0
  · exact sentIn_of_sent hall
  · simp only [not_forall, not_not] at hall
    obtain ⟨s, hs, hx⟩ := hall
    have hrest : sentIn rest = 0 := sentIn_of_unsent fun t ht => by
      by_contra hne
      exact hacross s hs t ht hne hx
    rw [sentIn_append, hrest] at hle
    exact Nat.le_antisymm (sentIn_le acked) hle

/-- What the list is after an ack of bytes that have been transmitted. -/
theorem Released.parts (hr : Released n o.slist slist) (h : QueueOk o) (hn : n ≤ sentIn o.slist) :
    bytesIn slist + n = bytesIn o.slist ∧ sentIn slist + n = sentIn o.slist ∧ SentFirst slist ∧
    (slist.Pairwise fun a _ => a.len ≠ 0) ∧ ∀ s ∈ slist, s.len = 0 → s.xmit = 0 ∧ s.bCtrl = false := by
  have hfirst := h.sentFirst
  have hfilled := h.filled
  have hempty := h.empty
  cases hr with
  | whole acked rest hlist hacked =>
    rw [hlist] at hn hfirst hfilled hempty ⊢
    have hsent := sentIn_prefix hfirst (by rw [hacked]; exact hn)
    rw [bytesIn_append, sentIn_append, hsent, hacked]
    refine ⟨Nat.add_comm _ _, Nat.add_comm _ _, (sentFirst_append.1 hfirst).2.1,
      (List.pairwise_append.1 hfilled).2.1, ?_⟩
    exact fun s hs => hempty s (List.mem_append_right _ hs)
  | cut acked rest seg part hlist hacked hseq hxmit hkind hlen hpart =>
    rw [hlist] at hn hfirst hfilled hempty ⊢
    have hsent := sentIn_prefix hfirst (Nat.le_trans (Nat.le_of_lt hacked) hn)
    obtain ⟨-, hfrest, hfacross⟩ := sentFirst_append.1 hfirst
    obtain ⟨hsrest, hrest⟩ := List.pairwise_cons.1 hfrest
    have hx : seg.xmit ≠ 0 := by
      intro h0
      have hnone : sentIn (seg :: rest) = 0 := sentIn_of_unsent fun t ht => by
        rcases List.mem_cons.1 ht with rfl | ht
        · exact h0
        · by_contra hne
          exact hsrest t ht hne h0
      rw [sentIn_append, hnone, hsent] at hn
      omega
    have hpx : part.xmit ≠ 0 := hxmit ▸ hx
    simp only [bytesIn_append, bytesIn_cons, sentIn_append, sentIn_cons, SSegment.sentSize,
      if_neg hx, if_neg hpx, hsent]
    refine ⟨by omega, by omega, ?_, ?_, ?_⟩
    · exact List.pairwise_cons.2 ⟨fun _ _ _ => hpx, hrest⟩
    · have htail := (List.pairwise_cons.1 (List.pairwise_append.1 hfilled).2.1).2
      exact List.pairwise_cons.2 ⟨fun _ _ => hpart, htail⟩
    · intro s hs h0
      rcases List.mem_cons.1 hs with rfl | hs
      · exact absurd h0 hpart
      · exact hempty s (List.mem_append_right _ (List.mem_cons_of_mem _ hs)) h0

/-- An ack of something new, as the numbers go. -/
theorem QueueOk.newAck (h : QueueOk o) (hnew : ack > o.sndUna) (hold : ack ≤ o.sndNxt) :
    (ack - o.sndUna).toNat = ack.toNat - o.sndUna.toNat ∧ (ack - o.sndUna).toNat ≤ sentIn o.slist ∧
    (o.sndNxt - ack).toNat = sentIn o.slist - (ack - o.sndUna).toNat ∧
    o.sndUna.toNat + sentIn o.slist = o.sndNxt.toNat := by
  have hle : o.sndUna ≤ o.sndNxt := UInt32.le_trans (UInt32.le_of_lt hnew) hold
  have hflight := h.inFlight
  rw [UInt32.toNat_sub_of_le _ _ hle] at hflight
  rw [UInt32.toNat_sub_of_le _ _ (UInt32.le_of_lt hnew), UInt32.toNat_sub_of_le _ _ hold]
  rw [gt_iff_lt, UInt32.lt_iff_toNat_lt] at hnew
  rw [UInt32.le_iff_toNat_le] at hold
  omega

theorem QueueOk.released (h : QueueOk o) (hnew : ack > o.sndUna) (hold : ack ≤ o.sndNxt)
    (hr : Released (ack - o.sndUna).toNat o.slist slist) :
    QueueOk { o with slist, sndUna := ack, sbuf := o.sbuf.consumeReadData (ack - o.sndUna).toNat } := by
  obtain ⟨-, hn, hflight, -⟩ := h.newAck hnew hold
  obtain ⟨hbytes, hsent, hfirst, hfilled, hempty⟩ := hr.parts h hn
  have htotal := h.total
  have hcap := h.capacity
  have hbound := h.bounded
  have hdata : (o.sbuf.consumeReadData (ack - o.sndUna).toNat).dataLength =
      o.sbuf.dataLength - (ack - o.sndUna).toNat := szSub_eq (by omega) (by omega)
  refine ⟨?_, ?_, hbound, hfirst, ?_, hfilled, hempty⟩
  · dsimp only
    omega
  · dsimp only
    rw [hdata]
    exact Nat.le_trans (Nat.sub_le _ _) hcap
  · dsimp only
    omega

theorem Released.contiguous (hr : Released (ack - o.sndUna).toNat o.slist slist)
    (h : Contiguous o.sndUna o.slist) (hends : EndsSegment o ack) : Contiguous ack slist := by
  cases hr with
  | whole acked rest hlist hacked =>
    rw [hlist, contiguous_append, hacked, UInt32.ofNat_toNat, UInt32.add_comm, UInt32.sub_add_cancel] at h
    exact h.2
  | cut acked rest seg part hlist hacked _ _ _ hlen hpart =>
    rw [EndsSegment, hlist] at hends
    have hpos : 0 < _ := Nat.pos_of_ne_zero fun h0 => hpart (UInt32.toNat_inj.1 h0)
    exact absurd hends (bytesIn_ne_of_cut hacked (by omega))

end

/-- The list does not lie over the buffer after an ack that ends elsewhere. -/
theorem Released.shifted {t u : PseudoTcp} {ack : UInt32}
    (hr : Released (ack - t.outgoing.sndUna).toNat t.outgoing.slist u.outgoing.slist)
    (h : Contiguous t.outgoing.sndUna t.outgoing.slist) (huna : u.outgoing.sndUna = ack)
    (hends : ¬ EndsSegment t.outgoing ack) : Shifted u := by
  generalize hslist : u.outgoing.slist = slist at hr
  cases hr with
  | whole acked rest hlist hacked => exact absurd ⟨_, _, hlist, hacked⟩ hends
  | cut acked rest seg part hlist hacked hseq hxmit hkind hlen hpart =>
    refine ⟨part.seq, by rw [hslist]; rfl, ?_⟩
    rw [huna, hseq]
    intro heq
    rw [hlist] at h
    have hoffset := h.offset
    rw [heq] at hoffset
    have hnat := congrArg UInt32.toNat hoffset
    rw [UInt32.toNat_ofNat'] at hnat
    have hmod := Nat.mod_le (bytesIn acked) (2 ^ 32)
    omega

/-! ## Acks -/

/-- An ack of something new ends where a segment ends. -/
def PseudoTcp.AcksWhole (t : PseudoTcp) (seg : Segment) : Prop :=
  seg.ack > t.outgoing.sndUna → seg.ack ≤ t.outgoing.sndNxt → EndsSegment t.outgoing seg.ack

/-- What `releaseAcked` changes when no more is acknowledged than was sent. -/
theorem releaseAcked_spec {t : PseudoTcp} {ack : UInt32} (h : QueueOk t.outgoing) (hnew : ack > t.outgoing.sndUna)
    (hold : ack ≤ t.outgoing.sndNxt) : ∃ slist largest,
      Released (ack - t.outgoing.sndUna).toNat t.outgoing.slist slist ∧
      t.releaseAcked ack = { t with
        largest
        rtoBase := if ack = t.outgoing.sndNxt then 0 else t.env.now
        outgoing := { t.outgoing with
          slist, sndUna := ack, sbuf := t.outgoing.sbuf.consumeReadData (ack - t.outgoing.sndUna).toNat } } := by
  obtain ⟨-, hn, -, -⟩ := h.newAck hnew hold
  have hbytes : (ack - t.outgoing.sndUna).toNat ≤ bytesIn t.outgoing.slist := Nat.le_trans hn (sentIn_le _)
  obtain ⟨hreleased, hheld⟩ := release_spec t.largest hbytes
  refine ⟨(release t.largest (ack - t.outgoing.sndUna) t.outgoing.slist).1,
    (release t.largest (ack - t.outgoing.sndUna) t.outgoing.slist).2.1, hreleased, ?_⟩
  rw [h.total] at hbytes
  rw [releaseAcked, decide_eq_true hbytes]
  simp only [check_true, hheld]
  rfl

namespace Sending

variable {t : PseudoTcp}

theorem releaseAcked {ack : UInt32} (h : Sending t) (hnew : ack > t.outgoing.sndUna) (hold : ack ≤ t.outgoing.sndNxt) :
    Sending (t.releaseAcked ack) ∧
    (InPlace t → EndsSegment t.outgoing ack → InPlace (t.releaseAcked ack)) ∧
    (InPlace t → ¬ EndsSegment t.outgoing ack → Shifted (t.releaseAcked ack)) := by
  obtain ⟨slist, largest, hreleased, heq⟩ := releaseAcked_spec h.queue hnew hold
  obtain ⟨hacked, hn, hflight, hend⟩ := h.queue.newAck hnew hold
  obtain ⟨-, hsent, -, -, -⟩ := hreleased.parts h.queue hn
  have hrecover := h.recover
  rw [heq]
  refine ⟨⟨h.queue.released hnew hold hreleased, h.mss, h.advised, h.room, ?_, ?_, fun hs => ?_⟩,
    fun hi hends => ⟨hreleased.contiguous hi.contiguous hends, hi.faults⟩,
    fun hi hends => Released.shifted hreleased hi.contiguous rfl hends⟩
  · dsimp only
    intro hbase h0
    have hne : ack ≠ t.outgoing.sndNxt := fun heq => hbase (if_pos heq)
    refine hne (UInt32.toNat_inj.1 ?_)
    rw [UInt32.toNat_sub_of_le _ _ hold] at hflight
    rw [UInt32.le_iff_toNat_le] at hold
    omega
  · dsimp only
    rw [gt_iff_lt, UInt32.lt_iff_toNat_lt] at hnew
    omega
  · have hnil := h.listening hs
    rw [hnil, sentIn_nil] at hn
    rw [gt_iff_lt, UInt32.lt_iff_toNat_lt] at hnew
    omega

/-- What `acknowledgeNew` starts with. -/
theorem acknowledgeNew (h : Sending t) (seg : Segment) (hnew : seg.ack > t.outgoing.sndUna)
    (hold : seg.ack ≤ t.outgoing.sndNxt) : ∃ u, Same t u ∧ Moves (u.releaseAcked seg.ack) (t.acknowledgeNew seg).1 := by
  have hsame : Same t { t.measure seg.tsecr with sndWnd := seg.wnd.toUInt32 <<<
    (t.measure seg.tsecr).swndScale.toUInt32 } :=
    (Same.measure t seg.tsecr).trans (.of_sender rfl)
  refine ⟨_, hsame, ?_⟩
  have hout := hsame.outgoing
  obtain ⟨hsending, -, -⟩ := (h.same hsame).releaseAcked (hout ▸ hnew) (hout ▸ hold)
  rw [PseudoTcp.acknowledgeNew]
  dsimp only
  generalize PseudoTcp.releaseAcked { t.measure seg.tsecr with
    sndWnd := seg.wnd.toUInt32 <<< (t.measure seg.tsecr).swndScale.toUInt32 } seg.ack = v at hsending ⊢
  split
  · split
    · exact .same (.of_sender rfl)
    · next hrecover =>
      have hflight : sentIn v.outgoing.slist ≠ 0 := by
        have hle := hsending.recover
        rw [ge_iff_le, UInt32.le_iff_toNat_le] at hrecover
        omega
      have hfirst := hsending.transmitFirst hflight v.env.now
      rcases ht : v.transmitFirst v.env.now with ⟨w, sent⟩
      rw [ht] at hfirst
      cases sent with
      | false => exact .sends hfirst
      | true => exact (Moves.sends hfirst).trans (.same (.of_sender rfl))
  · exact .same (.of_sender rfl)

/-- **An ack.** The queue stays over the buffer if the ack is not new or ends where a segment ends, and
only then. -/
theorem acknowledge (h : Sending t) (seg : Segment) : Sending (t.acknowledge seg).1 ∧
    (InPlace t → t.AcksWhole seg → InPlace (t.acknowledge seg).1) ∧
    (InPlace t → ¬ t.AcksWhole seg → Shifted (t.acknowledge seg).1) := by
  rw [PseudoTcp.acknowledge]
  by_cases hack : seg.ack > t.outgoing.sndUna ∧ seg.ack ≤ t.outgoing.sndNxt
  · obtain ⟨hnew, hold⟩ := hack
    rw [if_pos ⟨hnew, hold⟩]
    obtain ⟨u, hsame, hmoves⟩ := h.acknowledgeNew seg hnew hold
    have hout := hsame.outgoing
    obtain ⟨hsending, hplace, hshifted⟩ := (h.same hsame).releaseAcked (hout ▸ hnew) (hout ▸ hold)
    rw [hout] at hplace hshifted
    have hmoved (hi : InPlace t) : InPlace u := (Moves.same hsame).inPlace h hi
    refine ⟨hmoves.sending hsending, fun hi hwhole => ?_, fun hi hcut => ?_⟩
    · exact hmoves.inPlace hsending (hplace (hmoved hi) (hwhole hnew hold))
    · exact hmoves.shifted (hshifted (hmoved hi) fun hends => hcut fun _ _ => hends)
  · rw [if_neg hack]
    have hmoves : Moves t (if seg.ack = t.outgoing.sndUna then t.acknowledgeSame seg else (t, true)).1 := by
      split
      · exact h.acknowledgeSame seg
      · exact .same (Same.refl t)
    refine ⟨hmoves.sending h, fun hi _ => hmoves.inPlace h hi, fun _ hcut => absurd (fun hnew hold => ?_) hcut⟩
    exact absurd ⟨hnew, hold⟩ hack

end Sending

end WebRtc.Tcp
