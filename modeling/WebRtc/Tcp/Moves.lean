import WebRtc.Tcp.Attempts

/-!
# What the operations do to the sending side

`Sending` holds of an endpoint in every run, whatever arrives. `Same t u`: the queue is as it was. `Moves`
puts such steps and those of `Sends` together; only `queue` and an ack that is new are something else.
-/

namespace WebRtc.Tcp

open PseudoTcp

/-- The assertions about the queue. -/
def Fault.ofQueue : Fault → Bool
  | .controlQueued | .packetSize | .packetData | .transmitEmpty | .acknowledgeEmpty | .nothingToSend
  | .consumeRead | .sendDifference => true
  | .negativeRtt | .writeOffset | .consumeWrite | .resize | .receiveWindow | .receiveDifference => false

structure Sending (t : PseudoTcp) : Prop where
  queue : QueueOk t.outgoing
  mss : MssOk t.mss
  advised : MssOk (t.mtuAdvise - packetOverhead)
  /-- For the connect message. -/
  room : 4 ≤ t.outgoing.sbuf.bufferLength
  timer : t.rtoBase ≠ 0 → sentIn t.outgoing.slist ≠ 0
  recover : t.recover.toNat ≤ t.outgoing.sndUna.toNat + sentIn t.outgoing.slist
  listening : t.state = .listen → t.outgoing.slist = []

/-- The queue stays. -/
structure Same (t u : PseudoTcp) : Prop where
  outgoing : u.outgoing = t.outgoing
  advise : u.mtuAdvise = t.mtuAdvise
  mss : u.mss = t.mss ∨ u.mss = t.mtuAdvise - packetOverhead
  timer : u.rtoBase ≠ 0 → t.rtoBase ≠ 0 ∨ sentIn t.outgoing.slist ≠ 0
  recover : u.recover = t.recover ∨ u.recover = t.outgoing.sndNxt
  listening : u.state = .listen → t.state = .listen
  faults : ∀ f ∈ u.env.faults, f ∈ t.env.faults ∨ f.ofQueue = false

namespace Same

variable {t u v : PseudoTcp}

theorem refl (t : PseudoTcp) : Same t t := ⟨rfl, rfl, .inl rfl, .inl, .inl rfl, id, fun _ => .inl⟩

theorem trans (h : Same t u) (h' : Same u v) : Same t v where
  outgoing := h'.outgoing.trans h.outgoing
  advise := h'.advise.trans h.advise
  mss := by
    rcases h'.mss with hv | hv
    · rw [hv]
      exact h.mss
    · rw [hv, h.advise]
      exact .inr rfl
  timer := by
    intro hv
    rcases h'.timer hv with hu | hu
    · exact h.timer hu
    · exact .inr (h.outgoing ▸ hu)
  recover := by
    rcases h'.recover with hv | hv
    · rw [hv]
      exact h.recover
    · rw [hv, h.outgoing]
      exact .inr rfl
  listening := fun hv => h.listening (h'.listening hv)
  faults := fun f hf => (h'.faults f hf).elim (h.faults f) .inr

end Same

/-! ## Functions that leave the queue alone -/

namespace PseudoTcp

/-- What `Same` looks at. -/
def sender (t : PseudoTcp) : Outgoing × UInt32 × UInt32 × UInt32 × UInt32 × TcpState × List Fault :=
  (t.outgoing, t.mtuAdvise, t.mss, t.rtoBase, t.recover, t.state, t.env.faults)

end PseudoTcp

namespace Same

variable {t u : PseudoTcp}

theorem of_sender (h : u.sender = t.sender) : Same t u := by
  simp only [sender, Prod.mk.injEq] at h
  obtain ⟨hout, hadvise, hmss, hbase, hrecover, hstate, hfaults⟩ := h
  exact ⟨hout, hadvise, .inl hmss, fun hu => .inl (hbase ▸ hu), .inl hrecover, fun hu => hstate ▸ hu,
    fun f hf => .inl (hfaults ▸ hf)⟩

theorem notify (t : PseudoTcp) (n : Notification) : Same t (t.notify n) := of_sender rfl

theorem check (t : PseudoTcp) {fault : Fault} (holds : Bool) (h : fault.ofQueue = false) :
    Same t (t.check fault holds) := by
  cases holds with
  | true => exact Same.refl t
  | false =>
    refine ⟨rfl, rfl, .inl rfl, .inl, .inl rfl, id, fun f hf => ?_⟩
    rcases List.mem_append.1 hf with hf | hf
    · exact .inl hf
    · exact .inr (List.mem_singleton.1 hf ▸ h)

theorem state {s : TcpState} (t : PseudoTcp) (hs : s ≠ .listen) : Same t { t with state := s } :=
  ⟨rfl, rfl, .inl rfl, .inl, .inl rfl, fun h => absurd h hs, fun _ => .inl⟩

theorem closedown (t : PseudoTcp) (error : SocketError) : Same t (t.closedown error) :=
  (Same.state t TcpState.noConfusion).trans (notify _ _)

theorem adjustMTU (t : PseudoTcp) : Same t t.adjustMTU :=
  ⟨rfl, rfl, .inr rfl, .inl, .inl rfl, id, fun _ => .inl⟩

theorem opened (t : PseudoTcp) : Same t ({ t with state := .established }.adjustMTU.notify .opened) :=
  ((Same.state t TcpState.noConfusion).trans (adjustMTU _)).trans (notify _ _)

theorem applyOption (t : PseudoTcp) (option : UInt8 × List UInt8) : Same t (t.applyOption option) := by
  refine of_sender ?_
  unfold PseudoTcp.applyOption
  split
  · split <;> rfl
  · rfl

theorem applyOptions (t : PseudoTcp) (options : List (UInt8 × List UInt8)) :
    Same t (options.foldl PseudoTcp.applyOption t) := by
  induction options generalizing t with
  | nil => exact Same.refl t
  | cons option options ih => exact (applyOption t option).trans (ih _)

theorem resizeReceiveBuffer (t : PseudoTcp) (newSize : UInt32) : Same t (t.resizeReceiveBuffer newSize) :=
  (check t _ rfl).trans (of_sender rfl)

theorem parseOptions (t : PseudoTcp) (data : List UInt8) : Same t (t.parseOptions data) := by
  have happlied := applyOptions t (readOptions data).1
  rw [PseudoTcp.parseOptions]
  dsimp only
  split
  · exact happlied
  · split
    · exact happlied.trans ((resizeReceiveBuffer _ _).trans (of_sender rfl))
    · exact happlied

theorem updateTimestamp (t : PseudoTcp) (seg : Segment) : Same t (t.updateTimestamp seg) := by
  rw [PseudoTcp.updateTimestamp]
  split
  · exact of_sender rfl
  · exact Same.refl t

theorem measure (t : PseudoTcp) (tsecr : UInt32) : Same t (t.measure tsecr) := by
  rw [PseudoTcp.measure]
  split
  · exact Same.refl t
  · dsimp only
    split
    · exact check t _ rfl
    · exact of_sender rfl

theorem establish (t : PseudoTcp) (bConnect : Bool) : Same t (t.establish bConnect) := by
  rw [PseudoTcp.establish]
  split
  · exact opened t
  · exact Same.refl t

theorem notifyWriteable (t : PseudoTcp) : Same t t.notifyWriteable := by
  rw [PseudoTcp.notifyWriteable]
  split
  · exact of_sender rfl
  · exact Same.refl t

theorem advance (t : PseudoTcp) (n : UInt32) : Same t (t.advance n) :=
  ((check t _ rfl).trans (check _ _ rfl)).trans (of_sender rfl)

theorem recovered (t : PseudoTcp) (rlist : List RSegment) : Same t (t.recovered rlist).1 := by
  induction rlist generalizing t with
  | nil => exact of_sender rfl
  | cons it rlist ih =>
    rw [PseudoTcp.recovered]
    split
    · split
      · exact (advance t _).trans (ih _)
      · exact ih t
    · exact of_sender rfl

theorem store (t : PseudoTcp) (isCtl : Bool) (seq : UInt32) (data : List UInt8) :
    Same t (t.store isCtl seq data).1 := by
  rw [PseudoTcp.store]
  split
  · exact Same.refl t
  · split
    · split
      · exact of_sender rfl
      · exact Same.refl t
    · generalize t.incoming.rbuf.writeOffset data (seq - t.incoming.rcvNxt).toNat = written
      dsimp only
      have hwritten : Same t { t.check .writeOffset (written.any fun w => w.2 == data.length) with
          incoming := { (t.check .writeOffset (written.any fun w => w.2 == data.length)).incoming with
            rbuf := (written.map Prod.fst).getD
              (t.check .writeOffset (written.any fun w => w.2 == data.length)).incoming.rbuf } } :=
        (check t _ rfl).trans (of_sender rfl)
      split
      · exact hwritten.trans ((advance _ _).trans (recovered _ _))
      · exact hwritten.trans (of_sender rfl)

end Same

theorem QueueOk.next {o : Outgoing} (h : QueueOk o) : o.sndNxt = o.sndUna + UInt32.ofNat (sentIn o.slist) := by
  rw [← h.inFlight, UInt32.ofNat_toNat, UInt32.add_comm, UInt32.sub_add_cancel]

theorem Sending.same {t u : PseudoTcp} (h : Sending t) (hs : Same t u) : Sending u where
  queue := hs.outgoing ▸ h.queue
  mss := by
    rcases hs.mss with hm | hm
    · rw [hm]
      exact h.mss
    · rw [hm]
      exact h.advised
  advised := hs.advise ▸ h.advised
  room := hs.outgoing ▸ h.room
  timer := by
    rw [hs.outgoing]
    exact fun hu => (hs.timer hu).elim h.timer id
  recover := by
    rw [hs.outgoing]
    rcases hs.recover with hr | hr
    · rw [hr]
      exact h.recover
    · -- The end of what is in flight, as far as it has not wrapped around.
      rw [hr, h.queue.next, UInt32.toNat_add, UInt32.toNat_ofNat']
      omega
  listening := by
    rw [hs.outgoing]
    exact fun hu => h.listening (hs.listening hu)

namespace Sends

variable {t u : PseudoTcp}

theorem advise (h : Sends t u) : u.mtuAdvise = t.mtuAdvise := by
  have hs := congrArg PseudoTcp.mtuAdvise h.still_eq
  exact hs

theorem recover (h : Sends t u) : u.recover = t.recover := by
  have hs := congrArg PseudoTcp.recover h.still_eq
  exact hs

theorem state (h : Sends t u) : u.state = t.state := by
  have hs := congrArg PseudoTcp.state h.still_eq
  exact hs

theorem slist_nil (h : Sends t u) (ht : t.outgoing.slist = []) : u.outgoing.slist = [] := by
  have hhead := h.head_seq
  rw [ht] at hhead
  simpa using hhead

end Sends

theorem Sending.sends {t u : PseudoTcp} (h : Sending t) (hs : Sends t u) : Sending u where
  queue := hs.queueOk h.queue
  mss := hs.mss h.mss
  advised := hs.advise ▸ h.advised
  room := hs.sbuf ▸ h.room
  timer := hs.timer h.timer
  recover := by
    rw [hs.recover, hs.una]
    exact Nat.le_trans h.recover (Nat.add_le_add_left hs.sentIn_le _)
  listening := fun hu => hs.slist_nil (h.listening (hs.state ▸ hu))

/-! ## Steps of both kinds -/

inductive Moves : PseudoTcp → PseudoTcp → Prop
  | same {t u : PseudoTcp} (h : Same t u) : Moves t u
  | sends {t u : PseudoTcp} (h : Sends t u) : Moves t u
  | trans {t u v : PseudoTcp} : Moves t u → Moves u v → Moves t v

/-- The list does not begin with the first byte of the buffer. -/
def Shifted (t : PseudoTcp) : Prop := ∃ seq, t.outgoing.slist.head?.map SSegment.seq = some seq ∧
    seq ≠ t.outgoing.sndUna

/-- The list lies over the buffer, and no assertion about this has failed. -/
structure InPlace (t : PseudoTcp) : Prop where
  contiguous : Contiguous t.outgoing.sndUna t.outgoing.slist
  faults : ∀ f ∈ t.env.faults, f.ofQueue = false

namespace Moves

variable {t u : PseudoTcp}

theorem sending (h : Moves t u) (ht : Sending t) : Sending u := by
  induction h with
  | same h => exact ht.same h
  | sends h => exact ht.sends h
  | trans _ _ ih ih' => exact ih' (ih ht)

theorem inPlace (h : Moves t u) (hs : Sending t) (ht : InPlace t) : InPlace u := by
  induction h with
  | same h => exact ⟨h.outgoing ▸ ht.contiguous, fun f hf => (h.faults f hf).elim (ht.faults f) id⟩
  | sends h => exact ⟨h.contiguous ht.contiguous, h.noFault hs.queue hs.mss ht.contiguous ▸ ht.faults⟩
  | trans h _ ih ih' => exact ih' (h.sending hs) (ih hs ht)

theorem shifted (h : Moves t u) (ht : Shifted t) : Shifted u := by
  induction h with
  | same h => rwa [Shifted, h.outgoing]
  | sends h => rwa [Shifted, h.head_seq, h.una]
  | trans _ _ ih ih' => exact ih' (ih ht)

end Moves

theorem Shifted.not_inPlace {t : PseudoTcp} (h : Shifted t) : ¬ InPlace t := by
  rintro ⟨hc, -⟩
  obtain ⟨seq, hhead, hne⟩ := h
  cases hlist : t.outgoing.slist with
  | nil => simp [hlist] at hhead
  | cons s slist =>
    rw [hlist] at hc hhead
    have hseq : s.seq = seq := by simpa using hhead
    exact hne (hseq ▸ hc.1)

/-! ## The functions that send -/

namespace Sending

variable {t : PseudoTcp}

theorem flight (h : Sending t) : t.inFlight.toNat = sentIn t.outgoing.slist := h.queue.inFlight

theorem flight_ne (h : Sending t) (hne : t.outgoing.sndUna ≠ t.outgoing.sndNxt) : sentIn t.outgoing.slist ≠ 0 := by
  intro h0
  have hnext := h.queue.next
  rw [h0] at hnext
  exact hne (by simpa using hnext.symm)

theorem attemptSend (h : Sending t) (sflags : SendFlags) : Moves t (t.attemptSend sflags) :=
  .sends (attemptSend_sends h.queue h.mss sflags)

theorem ack (h : Sending t) (seq : UInt32) : Moves t (t.packet seq 0 0 0).1 := .sends (sends_packet h.mss seq)

theorem transmitFirst (h : Sending t) (hflight : sentIn t.outgoing.slist ≠ 0) (now : UInt32) :
    Sends t (t.transmitFirst now).1 := transmitFirst_sends h.queue h.mss hflight now

theorem receive (h : Sending t) (seg : Segment) : Moves t (t.receive seg) := by
  unfold PseudoTcp.receive
  rcases trimOld t.incoming.rcvNxt seg.seq seg.data with ⟨seq, data⟩
  dsimp only
  have hstore := Same.store t seg.isCtl seq
    (trimNew t.incoming.rcvNxt (UInt32.ofNat t.incoming.rbuf.getWriteRemaining) seq data)
  generalize t.store seg.isCtl seq
    (trimNew t.incoming.rcvNxt (UInt32.ofNat t.incoming.rbuf.getWriteRemaining) seq data) = stored at hstore ⊢
  obtain ⟨u, bNewData, reached⟩ := stored
  dsimp only at hstore ⊢
  have hsent := (h.same hstore).attemptSend (if reached then .immediateAck else t.ackFlags seg)
  generalize u.attemptSend (if reached then .immediateAck else t.ackFlags seg) = v at hsent ⊢
  split
  · exact ((Moves.same hstore).trans hsent).trans (.same (.of_sender rfl))
  · exact (Moves.same hstore).trans hsent

theorem acknowledgeSame (h : Sending t) (seg : Segment) : Moves t (t.acknowledgeSame seg).1 := by
  unfold PseudoTcp.acknowledgeSame
  dsimp only
  split
  · exact .same (.of_sender rfl)
  · split
    · exact .same (.of_sender rfl)
    · next hne =>
      split
      · have hsame : Same t { t with
            sndWnd := seg.wnd.toUInt32 <<< t.swndScale.toUInt32, dupAcks := t.dupAcks + 1 } := .of_sender rfl
        have hfirst := (h.same hsame).transmitFirst (h.flight_ne hne) t.env.now
        rcases ht : PseudoTcp.transmitFirst { t with
          sndWnd := seg.wnd.toUInt32 <<< t.swndScale.toUInt32, dupAcks := t.dupAcks + 1 } t.env.now with ⟨u, sent⟩
        rw [ht] at hfirst
        cases sent with
        | false => exact (Moves.same hsame).trans (.sends hfirst)
        | true =>
          refine ((Moves.same hsame).trans (.sends hfirst)).trans (.same ?_)
          exact ⟨rfl, rfl, .inl rfl, .inl, .inr rfl, id, fun _ => .inl⟩
      · split
        · exact .same (.of_sender rfl)
        · exact .same (.of_sender rfl)

theorem clockRetransmit (h : Sending t) (now : UInt32) : Moves t (t.clockRetransmit now).1 := by
  rw [PseudoTcp.clockRetransmit]
  split
  · next hdue =>
    have hflight := h.timer hdue.1
    rw [if_neg (ne_nil_of_sentIn hflight)]
    have hfirst := h.transmitFirst hflight now
    rcases ht : t.transmitFirst now with ⟨u, sent⟩
    rw [ht] at hfirst
    cases sent with
    | false => exact .sends hfirst
    | true =>
      have hstill : sentIn u.outgoing.slist ≠ 0 := by
        have hle := hfirst.sentIn_le
        dsimp only at hle
        omega
      exact (Moves.sends hfirst).trans (.same ⟨rfl, rfl, .inl rfl, fun _ => .inr hstill, .inl rfl, id, fun _ => .inl⟩)
  · exact .same (Same.refl t)

theorem clockProbe (h : Sending t) (now : UInt32) : Moves t (t.clockProbe now).1 := by
  rw [PseudoTcp.clockProbe]
  split
  · split
    · exact .same (Same.refl t)
    · have hack := h.ack (t.outgoing.sndNxt - 1)
      generalize (t.packet (t.outgoing.sndNxt - 1) 0 0 0).1 = u at hack ⊢
      exact hack.trans (.same (.of_sender rfl))
  · exact .same (Same.refl t)

theorem clockAck (h : Sending t) (now : UInt32) : Moves t (t.clockAck now) := by
  rw [PseudoTcp.clockAck]
  split
  · exact h.ack _
  · exact .same (Same.refl t)

theorem notifyClock (h : Sending t) (now : UInt32) : Moves t (t.notifyClock now) := by
  rw [PseudoTcp.notifyClock]
  split
  · exact .same (Same.refl t)
  · have hretransmit := h.clockRetransmit now
    rcases ht : t.clockRetransmit now with ⟨u, going⟩
    rw [ht] at hretransmit
    cases going with
    | false => exact hretransmit.trans (.same (Same.closedown _ _))
    | true =>
      have hprobe := (hretransmit.sending h).clockProbe now
      dsimp only
      rcases hu : u.clockProbe now with ⟨v, going⟩
      rw [hu] at hprobe
      cases going with
      | false => exact (hretransmit.trans hprobe).trans (.same (Same.closedown _ _))
      | true => exact (hretransmit.trans hprobe).trans ((hprobe.sending (hretransmit.sending h)).clockAck now)

theorem recv (h : Sending t) (len : Nat) : Moves t (t.recv len).1 := by
  rw [PseudoTcp.recv]
  split
  · exact .same (Same.refl t)
  · split
    · exact .same (.of_sender rfl)
    · next data rbuf _ =>
      have hread : Same t { t with incoming := { t.incoming with rbuf } } := .of_sender rfl
      have hchecked : Same t ({ t with incoming := { t.incoming with rbuf } }.check .receiveDifference
          (decide (t.incoming.rcvWnd ≤ UInt32.ofNat rbuf.getWriteRemaining))) := by
        refine hread.trans (Same.check _ _ ?_)
        rfl
      dsimp only
      generalize PseudoTcp.check { t with incoming := { t.incoming with rbuf } } .receiveDifference
        (decide (t.incoming.rcvWnd ≤ UInt32.ofNat rbuf.getWriteRemaining)) = u at hchecked ⊢
      have hopened : Same u { u with incoming := { u.incoming with rcvWnd := UInt32.ofNat rbuf.getWriteRemaining } } :=
        .of_sender rfl
      generalize { u with incoming := { u.incoming with rcvWnd := UInt32.ofNat rbuf.getWriteRemaining } } = v
        at hopened ⊢
      split
      · split
        · have hsent := (h.same (hchecked.trans hopened)).attemptSend .immediateAck
          dsimp only
          exact (Moves.same (hchecked.trans hopened)).trans hsent
        · exact .same (hchecked.trans hopened)
      · exact .same hchecked

end Sending

end WebRtc.Tcp
