import WebRtc.Tcp.Effects

/-!
# The queue of what is sent

`QueueOk`: the list counts the bytes of the send buffer, and those in flight are the ones that have been
transmitted. Every operation keeps it, whatever arrives. With `Contiguous` a segment is also found in
the buffer (`no_segmentFault`).
-/

namespace WebRtc.Tcp

open PseudoTcp

structure QueueOk (o : Outgoing) : Prop where
  total : bytesIn o.slist = o.sbuf.dataLength
  capacity : o.sbuf.dataLength ≤ o.sbuf.bufferLength
  bounded : o.sbuf.bufferLength < 4294967296
  sentFirst : SentFirst o.slist
  inFlight : (o.sndNxt - o.sndUna).toNat = sentIn o.slist
  /-- Only the last segment may be without bytes. -/
  filled : o.slist.Pairwise fun a _ => a.len ≠ 0
  empty : ∀ s ∈ o.slist, s.len = 0 → s.xmit = 0 ∧ s.bCtrl = false

/-! ## Splitting -/

section
variable {seg : SSegment} {n una : UInt32} {before after : List SSegment}

theorem toNat_split {len : UInt32} (h : n < len) : n.toNat + (len - n).toNat = len.toNat := by
  rw [UInt32.toNat_sub_of_le _ _ (UInt32.le_of_lt h)]
  have := UInt32.lt_iff_toNat_lt.1 h
  omega

theorem split_ne_zero {len : UInt32} (h : n < len) (hn : 0 < n) : n ≠ 0 ∧ len - n ≠ 0 := by
  have hsum := toNat_split h
  have hzero : (0 : UInt32).toNat = 0 := rfl
  rw [UInt32.lt_iff_toNat_lt] at h hn
  rw [ne_eq, ne_eq, ← UInt32.toNat_inj, ← UInt32.toNat_inj]
  omega

theorem bytesIn_pieces (seg : SSegment) (n : UInt32) : bytesIn (pieces seg n) = seg.len.toNat := by
  rw [pieces]
  split
  · next h =>
    have hsum := toNat_split h
    simp only [bytesIn_cons, bytesIn_nil]
    omega
  · simp only [bytesIn_cons, bytesIn_nil, Nat.add_zero]

theorem contiguous_pieces (seg : SSegment) (n : UInt32) :
    Contiguous una (pieces seg n ++ after) ↔ Contiguous una (seg :: after) := by
  rw [pieces]
  split
  · exact contiguous_split seg after _ _ ⟨rfl, rfl⟩ ⟨rfl, rfl⟩
  · rfl

theorem xmit_succ_ne (h : seg.xmit.toNat < 30) : seg.xmit + 1 ≠ 0 := by
  rw [ne_eq, ← UInt8.toNat_inj, UInt8.toNat_add]
  have hone : (1 : UInt8).toNat = 1 := rfl
  have hzero : (0 : UInt8).toNat = 0 := rfl
  omega

/-- The bytes that are in flight after a transmission. -/
theorem sentIn_pieces (h : seg.xmit.toNat < 30) : sentIn (pieces seg n) =
    if seg.xmit = 0 then (if n < seg.len then n else seg.len).toNat else seg.len.toNat := by
  have hne := xmit_succ_ne h
  rw [pieces]
  by_cases hn : n < seg.len
  · have hsum := toNat_split hn
    by_cases hx : seg.xmit = 0
    · rw [if_pos hn, if_pos hx, if_pos hn]
      simp only [sentIn_cons, sentIn_nil, SSegment.sentSize, if_neg hne, if_pos hx, Nat.add_zero]
    · rw [if_pos hn, if_neg hx]
      simp only [sentIn_cons, sentIn_nil, SSegment.sentSize, if_neg hne, if_neg hx, Nat.add_zero]
      exact hsum
  · rw [if_neg hn, if_neg hn, ite_self]
    simp only [sentIn_cons, sentIn_nil, SSegment.sentSize, if_neg hne, Nat.add_zero]

theorem sentFirst_pieces (h : seg.xmit.toNat < 30) (hlist : SentFirst (before ++ seg :: after))
    (hfirst : seg.xmit = 0 → ∀ s ∈ before, s.xmit ≠ 0) : SentFirst (before ++ (pieces seg n ++ after)) := by
  have hne := xmit_succ_ne h
  obtain ⟨hb, hsa, hacross⟩ := sentFirst_append.1 hlist
  obtain ⟨hs, ha⟩ := List.pairwise_cons.1 hsa
  have hbefore : ∀ s ∈ before, s.xmit ≠ 0 := by
    intro s hs'
    by_cases hx : seg.xmit = 0
    · exact hfirst hx s hs'
    · exact hacross s hs' seg List.mem_cons_self hx
  have htail : SentFirst (pieces seg n ++ after) := by
    rw [pieces]
    split
    · refine List.pairwise_cons.2 ⟨fun _ _ _ => hne, List.pairwise_cons.2 ⟨fun t ht hx => hs t ht hx, ha⟩⟩
    · exact List.pairwise_cons.2 ⟨fun _ _ _ => hne, ha⟩
  exact sentFirst_append.2 ⟨hb, htail, fun s hs' _ _ _ => hbefore s hs'⟩

theorem pieces_filled (hlen : seg.len ≠ 0) (hn : 0 < n) : ∀ s ∈ pieces seg n, s.len ≠ 0 := by
  intro s hs
  rw [pieces] at hs
  split at hs
  · next h =>
    obtain ⟨hn0, hrest⟩ := split_ne_zero h hn
    rcases List.mem_cons.1 hs with rfl | hs
    · exact hn0
    · rw [List.mem_singleton.1 hs]
      exact hrest
  · rw [List.mem_singleton.1 hs]
    exact hlen

/-- Segments with bytes take the place of one. -/
theorem pairwise_replace {mid : List SSegment} (h : (before ++ seg :: after).Pairwise fun a _ => a.len ≠ 0)
    (hmid : ∀ s ∈ mid, s.len ≠ 0) : (before ++ (mid ++ after)).Pairwise fun a _ => a.len ≠ 0 := by
  obtain ⟨hb, hsa, hacross⟩ := List.pairwise_append.1 h
  have ha := (List.pairwise_cons.1 hsa).2
  refine List.pairwise_append.2 ⟨hb, List.pairwise_append.2 ⟨?_, ha, fun s hs _ _ => hmid s hs⟩, fun s hs _ _ => ?_⟩
  · exact List.pairwise_of_forall_mem_list fun s hs _ _ => hmid s hs
  · exact hacross s hs seg List.mem_cons_self

/-- A segment has been transmitted. -/
theorem QueueOk.transmitted {o : Outgoing} (h : QueueOk o) (hlist : o.slist = before ++ seg :: after)
    (hfirst : seg.xmit = 0 → ∀ s ∈ before, s.xmit ≠ 0) (hxmit : seg.xmit.toNat < 30) (hlen : seg.len ≠ 0) (hn : 0 < n) :
    QueueOk { o with
      slist := before ++ (pieces seg n ++ after)
      sndNxt := if seg.xmit = 0 then o.sndNxt + (if n < seg.len then n else seg.len) else o.sndNxt } := by
  have htotal := h.total
  have hflight := h.inFlight
  have hcap := h.capacity
  have hbound := h.bounded
  rw [hlist, bytesIn_append, bytesIn_cons] at htotal
  rw [hlist, sentIn_append, sentIn_cons] at hflight
  refine ⟨?_, h.capacity, h.bounded, sentFirst_pieces hxmit (hlist ▸ h.sentFirst) hfirst, ?_,
    pairwise_replace (hlist ▸ h.filled) (pieces_filled hlen hn), ?_⟩
  · rw [bytesIn_append, bytesIn_append, bytesIn_pieces]
    exact htotal
  rotate_left
  · intro s hs h0
    rcases List.mem_append.1 hs with hs | hs
    · exact h.empty s (hlist ▸ List.mem_append_left _ hs) h0
    · rcases List.mem_append.1 hs with hs | hs
      · exact absurd h0 (pieces_filled hlen hn s hs)
      · exact h.empty s (hlist ▸ List.mem_append_right _ (List.mem_cons_of_mem _ hs)) h0
  · rw [sentIn_append, sentIn_append, sentIn_pieces hxmit]
    by_cases hx : seg.xmit = 0
    · rw [SSegment.sentSize, if_pos hx] at hflight
      rw [if_pos hx, if_pos hx]
      have hlen : (if n < seg.len then n else seg.len).toNat ≤ seg.len.toNat := by
        split
        · next hn => exact Nat.le_of_lt (UInt32.lt_iff_toNat_lt.1 hn)
        · exact Nat.le_refl _
      have hb := sentIn_le before
      have ha := sentIn_le after
      generalize (if n < seg.len then n else seg.len) = m at hlen
      have hadd : o.sndNxt + m - o.sndUna = o.sndNxt - o.sndUna + m := by
        rw [UInt32.sub_eq_add_neg, UInt32.sub_eq_add_neg, UInt32.add_assoc, UInt32.add_comm m, ← UInt32.add_assoc]
      rw [hadd, UInt32.toNat_add, hflight]
      omega
    · rw [SSegment.sentSize, if_neg hx] at hflight
      rw [if_neg hx, if_neg hx, hflight]

/-- A segment that has not been transmitted is broken. -/
theorem breakSegment_spec (una : UInt32) (after : List SSegment) (hseg : seg.xmit = 0)
    (hlen : seg.len ≠ 0) (hn : 0 < n) :
    bytesIn ((breakSegment seg n).1 :: (breakSegment seg n).2) = seg.len.toNat ∧
    (∀ s ∈ (breakSegment seg n).1 :: (breakSegment seg n).2, s.xmit = 0 ∧ s.len ≠ 0) ∧
    (breakSegment seg n).1.seq = seg.seq ∧ (breakSegment seg n).1.len ≤ n ∧
    (Contiguous una ((breakSegment seg n).1 :: ((breakSegment seg n).2 ++ after)) ↔ Contiguous una (seg :: after)) := by
  rw [breakSegment]
  split
  · next h =>
    have hsum := toNat_split h
    refine ⟨?_, fun s hs => ?_, rfl, UInt32.le_refl _, contiguous_split seg after _ _ ⟨rfl, rfl⟩ ⟨rfl, rfl⟩⟩
    · simp only [bytesIn_cons, bytesIn_nil]
      omega
    · obtain ⟨hn0, hrest⟩ := split_ne_zero h hn
      rcases List.mem_cons.1 hs with rfl | hs
      · exact ⟨hseg, hn0⟩
      · rw [List.mem_singleton.1 hs]
        exact ⟨rfl, hrest⟩
  · next h =>
    refine ⟨?_, fun s hs => ?_, rfl, UInt32.not_lt.1 h, Iff.rfl⟩
    · simp only [bytesIn_cons, bytesIn_nil, Nat.add_zero]
    · rw [List.mem_singleton.1 hs]
      exact ⟨hseg, hlen⟩

theorem sentFirst_unsent (hbefore : ∀ s ∈ before, s.xmit ≠ 0) (hafter : ∀ s ∈ after, s.xmit = 0) :
    SentFirst (before ++ after) := by
  refine sentFirst_append.2 ⟨?_, ?_, fun s hs _ _ _ => hbefore s hs⟩
  · exact List.pairwise_of_forall_mem_list fun s hs _ _ _ => hbefore s hs
  · exact List.pairwise_of_forall_mem_list fun _ _ t ht hne => absurd (hafter t ht) hne

end

/-! ## What sending can do -/

/-- A packet without data. -/
def AckWritten (t : PseudoTcp) (bytes : List UInt8) : Prop := ∃ seq, bytes = t.packetBytes seq 0 []

/-- The steps of sending. -/
inductive Sends : PseudoTcp → PseudoTcp → Prop
  /-- Nothing but packets without data. -/
  | quiet {t u : PseudoTcp} (hquiet : u.quiet = t.quiet) (hmss : MssOk u.mss)
      (heffect : Effect (AckWritten t) (fun _ => False) t.env u.env) : Sends t u
  | broken {t : PseudoTcp} {before after : List SSegment} {seg : SSegment} {n : UInt32}
      (hlist : t.outgoing.slist = before ++ seg :: after) (hbefore : ∀ s ∈ before, s.xmit ≠ 0) (hseg : seg.xmit = 0)
      (hlen : seg.len ≠ 0) (hn : 0 < n) (hafter : ∀ s ∈ after, s.xmit = 0) :
      Sends t (t.withSlist (before ++ (breakSegment seg n).1 :: ((breakSegment seg n).2 ++ after)))
  | failed {t u : PseudoTcp} {before after : List SSegment} {seg : SSegment}
      (hlist : t.outgoing.slist = before ++ seg :: after) (hquiet : u.quiet = t.quiet) (hmss : MssOk u.mss)
      (heffect : Effect (t.SegmentWritten seg) (t.SegmentFault seg t.mss) t.env u.env) : Sends t u
  | transmitted {t u : PseudoTcp} {before after : List SSegment} {seg : SSegment} {n now : UInt32}
      (hlist : t.outgoing.slist = before ++ seg :: after) (hquiet : u.quiet = t.quiet) (hmss : MssOk u.mss)
      (heffect : Effect (t.SegmentWritten seg) (t.SegmentFault seg t.mss) t.env u.env)
      (hfirst : seg.xmit = 0 → ∀ s ∈ before, s.xmit ≠ 0) (hlen : seg.len ≠ 0) (hn : n ≤ seg.len) (hpos : 0 < n)
      (hxmit : seg.xmit.toNat < 30) (hwindow : seg.xmit = 0 → n.toNat ≤ t.useable.toNat) :
      Sends t (u.transmitted before seg after n now)
  | trans {t u v : PseudoTcp} : Sends t u → Sends u v → Sends t v

namespace Sends

variable {t u : PseudoTcp}

theorem refl (hmss : MssOk t.mss) : Sends t t := quiet rfl hmss (Effect.refl _ _ _)

theorem mss (h : Sends t u) (ht : MssOk t.mss) : MssOk u.mss := by
  induction h with
  | quiet _ hmss _ => exact hmss
  | broken => exact ht
  | failed _ _ hmss _ => exact hmss
  | transmitted _ _ hmss => exact hmss
  | trans _ _ ih ih' => exact ih' (ih ht)

theorem queueOk (h : Sends t u) (ht : QueueOk t.outgoing) : QueueOk u.outgoing := by
  induction h with
  | quiet hquiet _ _ => exact outgoing_of_quiet hquiet ▸ ht
  | @broken t before after seg n hlist hbefore hseg hlen hn hafter =>
    obtain ⟨hbytes, hnew, -, -, -⟩ := breakSegment_spec 0 after hseg hlen hn
    have htotal := ht.total
    have hflight := ht.inFlight
    have hunsent : ∀ s ∈ (breakSegment seg n).1 :: ((breakSegment seg n).2 ++ after), s.xmit = 0 := by
      intro s hs
      rw [← List.cons_append] at hs
      exact (List.mem_append.1 hs).elim (fun hs => (hnew s hs).1) (hafter s)
    have hold : ∀ s ∈ seg :: after, s.xmit = 0 := by
      intro s hs
      rcases List.mem_cons.1 hs with rfl | hs
      · exact hseg
      · exact hafter s hs
    rw [hlist, bytesIn_append, bytesIn_cons] at htotal
    rw [hlist, sentIn_append, sentIn_of_unsent hold] at hflight
    refine ⟨?_, ht.capacity, ht.bounded, sentFirst_unsent hbefore hunsent, ?_, ?_, ?_⟩
    · change bytesIn (before ++ _) = t.outgoing.sbuf.dataLength
      rw [← List.cons_append, bytesIn_append, bytesIn_append, hbytes]
      exact htotal
    · change (t.outgoing.sndNxt - t.outgoing.sndUna).toNat = sentIn (before ++ _)
      rw [sentIn_append, sentIn_of_unsent hunsent]
      exact hflight
    · change (before ++ _).Pairwise _
      rw [← List.cons_append]
      exact pairwise_replace (hlist ▸ ht.filled) fun s hs => (hnew s hs).2
    · intro s hs h0
      change s ∈ before ++ _ at hs
      rw [← List.cons_append] at hs
      rcases List.mem_append.1 hs with hs | hs
      · exact ht.empty s (hlist ▸ List.mem_append_left _ hs) h0
      · rcases List.mem_append.1 hs with hs | hs
        · exact absurd h0 (hnew s hs).2
        · exact ht.empty s (hlist ▸ List.mem_append_right _ (List.mem_cons_of_mem _ hs)) h0
  | failed _ hquiet _ _ => exact outgoing_of_quiet hquiet ▸ ht
  | @transmitted t u before after seg n now hlist hquiet _ _ hfirst hlen _ hpos hxmit _ =>
    have hout := outgoing_of_quiet hquiet
    have hu := QueueOk.transmitted (n := n) (hout ▸ ht) (hout ▸ hlist) hfirst hxmit hlen hpos
    exact hu
  | trans _ _ ih ih' => exact ih' (ih ht)

/-- What is left of an endpoint without what sending changes. -/
def still (t : PseudoTcp) : PseudoTcp :=
  { t.quiet with rtoBase := 0, outgoing := { t.outgoing with slist := [], sndNxt := 0 } }

theorem still_of_quiet (h : u.quiet = t.quiet) : still u = still t :=
  congrArg (fun v : PseudoTcp => { v with rtoBase := 0, outgoing := { v.outgoing with slist := [], sndNxt := 0 } }) h

theorem still_eq (h : Sends t u) : still u = still t := by
  induction h with
  | quiet hquiet _ _ => exact still_of_quiet hquiet
  | broken => rfl
  | failed _ hquiet _ _ => exact still_of_quiet hquiet
  | transmitted _ hquiet =>
    have hs := still_of_quiet hquiet
    exact hs
  | trans _ _ ih ih' => exact ih'.trans ih

theorem una (h : Sends t u) : u.outgoing.sndUna = t.outgoing.sndUna := by
  have hs := congrArg (fun v : PseudoTcp => v.outgoing.sndUna) h.still_eq
  exact hs

theorem sbuf (h : Sends t u) : u.outgoing.sbuf = t.outgoing.sbuf := by
  have hs := congrArg (fun v : PseudoTcp => v.outgoing.sbuf) h.still_eq
  exact hs

theorem contiguous (h : Sends t u) (ht : Contiguous t.outgoing.sndUna t.outgoing.slist) :
    Contiguous u.outgoing.sndUna u.outgoing.slist := by
  induction h with
  | quiet hquiet _ _ => exact outgoing_of_quiet hquiet ▸ ht
  | @broken t before after seg n hlist hbefore hseg hlen hn hafter =>
    obtain ⟨-, -, -, -, hsame⟩ :=
      breakSegment_spec (t.outgoing.sndUna + UInt32.ofNat (bytesIn before)) after hseg hlen hn
    rw [hlist, contiguous_append] at ht
    exact contiguous_append.2 ⟨ht.1, hsame.2 ht.2⟩
  | failed _ hquiet _ _ => exact outgoing_of_quiet hquiet ▸ ht
  | @transmitted t u before after seg n now hlist hquiet =>
    rw [hlist, contiguous_append] at ht
    change Contiguous u.outgoing.sndUna (before ++ (pieces seg n ++ after))
    rw [outgoing_of_quiet hquiet]
    exact contiguous_append.2 ⟨ht.1, (contiguous_pieces seg n).2 ht.2⟩
  | trans _ _ ih ih' => exact ih' (ih ht)

theorem head_append {before : List SSegment} {seg : SSegment} {mid after : List SSegment}
    (h : (mid ++ after).head?.map SSegment.seq = some seg.seq) :
    (before ++ (mid ++ after)).head?.map SSegment.seq = (before ++ seg :: after).head?.map SSegment.seq := by
  cases before with
  | nil => exact h
  | cons s before => rfl

/-- Where the list starts. -/
theorem head_seq (h : Sends t u) :
    u.outgoing.slist.head?.map SSegment.seq = t.outgoing.slist.head?.map SSegment.seq := by
  induction h with
  | quiet hquiet _ _ => rw [outgoing_of_quiet hquiet]
  | @broken t before after seg n hlist hbefore hseg hlen hn hafter =>
    obtain ⟨-, -, hseq, -, -⟩ := breakSegment_spec 0 after hseg hlen hn
    rw [hlist]
    change (before ++ _).head?.map SSegment.seq = _
    rw [← List.cons_append]
    refine head_append ?_
    exact congrArg some hseq
  | failed _ hquiet _ _ => rw [outgoing_of_quiet hquiet]
  | @transmitted t u before after seg n now hlist hquiet =>
    rw [hlist]
    refine head_append ?_
    rw [pieces]
    split <;> rfl
  | trans _ _ ih ih' => exact ih'.trans ih

theorem sentIn_transmitted {before after : List SSegment} {seg : SSegment} {n : UInt32} (hxmit : seg.xmit.toNat < 30)
    (hn : n ≤ seg.len) (hpos : 0 < n) : sentIn (before ++ seg :: after) ≤ sentIn (before ++ (pieces seg n ++ after)) ∧
      0 < sentIn (before ++ (pieces seg n ++ after)) := by
  rw [UInt32.lt_iff_toNat_lt] at hpos
  have hzero : (0 : UInt32).toNat = 0 := rfl
  have hle := UInt32.le_iff_toNat_le.1 hn
  rw [sentIn_append, sentIn_append, sentIn_append, sentIn_cons, sentIn_pieces hxmit, SSegment.sentSize]
  by_cases hx : seg.xmit = 0
  · rw [if_pos hx, if_pos hx]
    by_cases hlt : n < seg.len
    · rw [if_pos hlt]
      omega
    · rw [if_neg hlt]
      omega
  · rw [if_neg hx, if_neg hx]
    omega

/-- Nothing that is in flight is taken back. -/
theorem sentIn_le (h : Sends t u) : sentIn t.outgoing.slist ≤ sentIn u.outgoing.slist := by
  induction h with
  | quiet hquiet _ _ => rw [outgoing_of_quiet hquiet]
  | @broken t before after seg n hlist hbefore hseg hlen hn hafter =>
    obtain ⟨-, hnew, -, -, -⟩ := breakSegment_spec 0 after hseg hlen hn
    rw [hlist]
    change _ ≤ sentIn (before ++ _)
    rw [← List.cons_append, sentIn_append, sentIn_append, sentIn_append, sentIn_cons, SSegment.sentSize, if_pos hseg]
    omega
  | failed _ hquiet _ _ => rw [outgoing_of_quiet hquiet]
  | transmitted hlist hquiet _ _ _ _ hn hpos hxmit _ =>
    rw [hlist]
    exact (sentIn_transmitted hxmit hn hpos).1
  | trans _ _ ih ih' => exact Nat.le_trans ih ih'

/-- The timer runs only while bytes are in flight. -/
theorem timer (h : Sends t u) (ht : t.rtoBase ≠ 0 → sentIn t.outgoing.slist ≠ 0) :
    u.rtoBase ≠ 0 → sentIn u.outgoing.slist ≠ 0 := by
  induction h with
  | @quiet t u hquiet _ _ =>
    have hbase : u.rtoBase = t.rtoBase := by
      have h := congrArg PseudoTcp.rtoBase hquiet
      exact h
    rw [hbase, outgoing_of_quiet hquiet]
    exact ht
  | broken hlist hbefore hseg hlen hn hafter =>
    intro hbase
    have hle := sentIn_le (Sends.broken hlist hbefore hseg hlen hn hafter)
    have hsent := ht hbase
    omega
  | @failed t u _ _ _ _ hquiet _ _ =>
    have hbase : u.rtoBase = t.rtoBase := by
      have h := congrArg PseudoTcp.rtoBase hquiet
      exact h
    rw [hbase, outgoing_of_quiet hquiet]
    exact ht
  | transmitted _ _ _ _ _ _ hn hpos hxmit _ =>
    intro _
    exact Nat.ne_of_gt (sentIn_transmitted hxmit hn hpos).2
  | trans _ _ ih ih' => exact ih' (ih ht)

end Sends

end WebRtc.Tcp
