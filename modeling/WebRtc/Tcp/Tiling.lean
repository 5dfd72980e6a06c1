import WebRtc.Lib.Machine
import WebRtc.Tcp.Acked

/-!
# The queue tiles the send buffer

`Tiles` is what the queue is for: the segments follow each other, from the first byte that has not been
acknowledged to the last byte of the buffer, and no assertion about them has failed. An ack that ends inside a
segment breaks this, since `process` takes the bytes from the segment but leaves its number as it was
(`release`). It holds in a run exactly when there is no such ack.
-/

namespace WebRtc.Tcp

open PseudoTcp

/-! ## Operations -/

inductive Operation where
  | connect
  | send (data : List UInt8)
  | recv (len : Nat)
  | notifyClock (now : UInt32)
  | notifyPacket (d : Datagram)

def Operation.bytesSent : Operation → Nat
  | .send data => data.length
  | _ => 0

/-- An operation at a time, and what `TcpWritePacket` returns meanwhile. -/
structure Call where
  operation : Operation
  now : UInt32
  results : List WriteResult

namespace PseudoTcp

def perform (t : PseudoTcp) : Operation → PseudoTcp
  | .connect => t.connect.1
  | .send data => (t.send data).1
  | .recv len => (t.recv len).1
  | .notifyClock now => t.notifyClock now
  | .notifyPacket d => (t.notifyPacket d).1

def call (t : PseudoTcp) (c : Call) : PseudoTcp × Unit :=
  ({ t with env := { t.env with now := c.now, results := c.results } }.perform c.operation, ())

/-- `process` gets as far as the ack. -/
def Heeds (t : PseudoTcp) (seg : Segment) : Prop :=
  seg.conv = t.conv ∧ t.state ≠ .closed ∧ seg.flags &&& flagRst = 0 ∧
    (seg.isCtl = true → seg.data.head? = some ctlConnect)

/-- No segment is cut. -/
def Whole (t : PseudoTcp) : Operation → Prop
  | .notifyPacket d => d.bytes.length ≤ maxPacket → t.Heeds d.segment → t.AcksWhole d.segment
  | _ => True

end PseudoTcp

/-! ## What the queue is for -/

structure Tiles (t : PseudoTcp) : Prop where
  contiguous : Contiguous t.outgoing.sndUna t.outgoing.slist
  covers : bytesIn t.outgoing.slist = t.outgoing.sbuf.dataLength
  sentFirst : SentFirst t.outgoing.slist
  /-- The end of the last segment that has been transmitted. -/
  next : ∀ sent s unsent, t.outgoing.slist = sent ++ s :: unsent → s.xmit ≠ 0 → (∀ a ∈ unsent, a.xmit = 0) →
    t.outgoing.sndNxt = s.seq + s.len
  unsent : (∀ s ∈ t.outgoing.slist, s.xmit = 0) → t.outgoing.sndNxt = t.outgoing.sndUna
  inFlight : t.inFlight.toNat ≤ t.outgoing.sbuf.dataLength
  /-- Where `transmit` reads. -/
  inside : ∀ s ∈ t.outgoing.slist, (s.seq - t.outgoing.sndUna).toNat + s.len.toNat ≤ t.outgoing.sbuf.dataLength
  faults : ∀ f ∈ t.env.faults, f.ofQueue = false

theorem InPlace.tiles {t : PseudoTcp} (h : Sending t) (hi : InPlace t) : Tiles t := by
  have htotal := h.queue.total
  have hbound := h.queue.dataLength_lt
  refine ⟨hi.contiguous, htotal, h.queue.sentFirst, fun sent s unsent hlist hx hunsent => ?_, fun hunsent => ?_, ?_,
    fun s hs => ?_, hi.faults⟩
  · have hfirst := h.queue.sentFirst
    have hcontiguous := hi.contiguous
    have hnext := h.queue.next
    rw [hlist] at hfirst hcontiguous hnext
    have hsent := sentIn_of_sent fun a ha => (sentFirst_append.1 hfirst).2.2 a ha s List.mem_cons_self hx
    rw [sentIn_append, sentIn_cons, hsent, sentIn_of_unsent hunsent, SSegment.sentSize, if_neg hx, Nat.add_zero,
      UInt32.ofNat_add, UInt32.ofNat_toNat, ← UInt32.add_assoc] at hnext
    rw [hnext, (contiguous_append.1 hcontiguous).2.1]
  · have hnext := h.queue.next
    rw [sentIn_of_unsent hunsent] at hnext
    simpa using hnext
  · rw [h.flight, ← htotal]
    exact sentIn_le _
  · obtain ⟨before, after, hlist⟩ := List.append_of_mem hs
    have hcontiguous := hi.contiguous
    rw [hlist] at hcontiguous htotal
    rw [bytesIn_append, bytesIn_cons] at htotal
    rw [hcontiguous.offset, UInt32.toNat_ofNat', Nat.mod_eq_of_lt (by omega)]
    omega

theorem Tiles.inPlace {t : PseudoTcp} (h : Tiles t) : InPlace t := ⟨h.contiguous, h.faults⟩

/-! ## Steps -/

namespace Sending

variable {t : PseudoTcp}

theorem connectMessage (h : Sending t) (hlisten : t.state = .listen) {s : TcpState} (hs : s ≠ .listen) :
    Sending ({ t with state := s }.queueConnectMessage) ∧
      (InPlace t → InPlace ({ t with state := s }.queueConnectMessage)) ∧
    ({ t with state := s }.queueConnectMessage).outgoing.sndUna = t.outgoing.sndUna ∧
    ({ t with state := s }.queueConnectMessage).outgoing.sndNxt = t.outgoing.sndNxt := by
  have hsame : Same t { t with state := s, sndWnd := numBytes t.connectMessage } :=
    (Same.state t hs).trans (.of_sender rfl)
  have hsize : 0 < (numBytes t.connectMessage).toNat ∧ (numBytes t.connectMessage).toNat ≤ 4 := by
    rw [numBytes, PseudoTcp.connectMessage]
    split <;> simp
  obtain ⟨hqueued, hplace⟩ := (h.same hsame).queued t.connectMessage true hs fun _ => ⟨h.listening hlisten, hsize⟩
  obtain ⟨-, huna, hnxt⟩ := queue_frame { t with state := s, sndWnd := numBytes t.connectMessage } t.connectMessage true
  exact ⟨hqueued, fun hi => hplace ((Moves.same hsame).inPlace h hi), huna, hnxt⟩

/-- Nothing is in flight before the connection. -/
theorem una_of_listening (h : Sending t) (hlisten : t.state = .listen) : t.outgoing.sndUna = t.outgoing.sndNxt := by
  have hnext := h.queue.next
  rw [h.listening hlisten] at hnext
  simpa using hnext.symm

/-- Only the connect message of the other side may put something into the queue. -/
theorem control (h : Sending t) (seg : Segment) :
    (t.control seg = none ∧ ¬ (seg.isCtl = true → seg.data.head? = some ctlConnect)) ∨
    ∃ u, t.control seg = some u ∧ (seg.isCtl = true → seg.data.head? = some ctlConnect) ∧
      Sending u ∧ (InPlace t → InPlace u) ∧
      u.outgoing.sndUna = t.outgoing.sndUna ∧ u.outgoing.sndNxt = t.outgoing.sndNxt ∧
      (u.outgoing = t.outgoing ∨ t.outgoing.sndUna = t.outgoing.sndNxt) := by
  have hkeeps {u : PseudoTcp} (hs : Same t u) : Sending u ∧ (InPlace t → InPlace u) ∧
      u.outgoing.sndUna = t.outgoing.sndUna ∧ u.outgoing.sndNxt = t.outgoing.sndNxt ∧
      (u.outgoing = t.outgoing ∨ t.outgoing.sndUna = t.outgoing.sndNxt) :=
    ⟨h.same hs, (Moves.same hs).inPlace h, by rw [hs.outgoing], by rw [hs.outgoing], .inl hs.outgoing⟩
  rw [PseudoTcp.control]
  by_cases hctl : seg.isCtl = false
  · rw [if_pos hctl]
    exact .inr ⟨t, rfl, by simp [hctl], hkeeps (Same.refl t)⟩
  · rw [if_neg hctl]
    cases hdata : seg.data with
    | nil => exact .inl ⟨rfl, by simpa using hctl⟩
    | cons code options =>
      dsimp only
      by_cases hcode : code = ctlConnect
      · rw [if_pos hcode]
        refine .inr ⟨_, rfl, fun _ => congrArg some hcode, ?_⟩
        have hparsed := Same.parseOptions t options
        generalize t.parseOptions options = v at hparsed ⊢
        have hv := h.same hparsed
        cases hstate : v.state with
        | listen =>
          obtain ⟨hqueued, hplace, huna, hnxt⟩ := hv.connectMessage hstate (s := .synReceived) TcpState.noConfusion
          have hlisten := hv.una_of_listening hstate
          rw [hparsed.outgoing] at hlisten
          exact ⟨hqueued, fun hi => hplace ((Moves.same hparsed).inPlace h hi),
            huna.trans (congrArg Outgoing.sndUna hparsed.outgoing),
            hnxt.trans (congrArg Outgoing.sndNxt hparsed.outgoing), .inr hlisten⟩
        | synSent => exact hkeeps (hparsed.trans (Same.opened v))
        | synReceived => exact hkeeps hparsed
        | established => exact hkeeps hparsed
        | closed => exact hkeeps hparsed
      · rw [if_neg hcode]
        refine .inl ⟨rfl, fun hhead => hcode ?_⟩
        exact Option.some.inj (hhead (by simpa using hctl))

/-- **A packet.** What it does to the queue shows whether its ack ends where a segment ends. -/
theorem process (h : Sending t) (seg : Segment) : Sending (t.process seg).1 ∧
    (InPlace t → (t.Heeds seg → t.AcksWhole seg) → InPlace (t.process seg).1) ∧
    (InPlace t → t.Heeds seg → ¬ t.AcksWhole seg → Shifted (t.process seg).1) := by
  have hdropped {u : PseudoTcp} (hs : Same t u) (hheeds : ¬ t.Heeds seg) : Sending u ∧
      (InPlace t → (t.Heeds seg → t.AcksWhole seg) → InPlace u) ∧ (InPlace t → t.Heeds seg →
          ¬ t.AcksWhole seg → Shifted u) :=
    ⟨h.same hs, fun hi _ => (Moves.same hs).inPlace h hi, fun _ hh => absurd hh hheeds⟩
  rw [PseudoTcp.process]
  by_cases hconv : seg.conv = t.conv
  · rw [if_neg (not_not.2 hconv)]
    have hheard : Same t { t with lasttraffic := t.env.now, lastrecv := t.env.now, bOutgoing := false } :=
      .of_sender rfl
    generalize hv : ({ t with lasttraffic := t.env.now, lastrecv := t.env.now, bOutgoing := false } :
      PseudoTcp) = v at hheard
    have hout := hheard.outgoing
    have hvstate : v.state = t.state := by rw [← hv]
    dsimp only
    by_cases hclosed : v.state = .closed
    · rw [if_pos hclosed]
      exact hdropped hheard fun hh => hh.2.1 (hvstate ▸ hclosed)
    · rw [if_neg hclosed]
      by_cases hrst : seg.flags &&& flagRst = 0
      · rw [if_neg (not_not.2 hrst)]
        rcases (h.same hheard).control seg with ⟨hnone, hbad⟩ | ⟨u, hsome, hgood, hu, hplace, huna, hnxt, hslist⟩
        · rw [hnone]
          exact hdropped hheard fun hh => hbad hh.2.2.2
        · rw [hsome]
          rw [hout] at huna hnxt hslist
          have hheeds : t.Heeds seg := ⟨hconv, hvstate ▸ hclosed, hrst, hgood⟩
          have hstamped := Same.updateTimestamp u seg
          have hiff : (u.updateTimestamp seg).AcksWhole seg ↔ t.AcksWhole seg := by
            rw [AcksWhole, AcksWhole, hstamped.outgoing, huna, hnxt]
            rcases hslist with heq | hnone
            · rw [heq]
            · refine iff_of_true (fun hnew hold => ?_) fun hnew hold => ?_
              · exact absurd hold (UInt32.not_le.2 (hnone ▸ hnew))
              · exact absurd hold (UInt32.not_le.2 (hnone ▸ hnew))
          obtain ⟨hacked, hwhole, hcut⟩ := (hu.same hstamped).acknowledge seg
          rw [hiff] at hwhole hcut
          have hi' (hi : InPlace t) : InPlace (u.updateTimestamp seg) :=
            (Moves.same hstamped).inPlace hu (hplace ((Moves.same hheard).inPlace h hi))
          have hend {w : PseudoTcp} (hmoves : Moves ((u.updateTimestamp seg).acknowledge seg).1 w) : Sending w ∧
              (InPlace t → (t.Heeds seg → t.AcksWhole seg) → InPlace w) ∧
              (InPlace t → t.Heeds seg → ¬ t.AcksWhole seg → Shifted w) :=
            ⟨hmoves.sending hacked, fun hi hw => hmoves.inPlace hacked (hwhole (hi' hi) (hw hheeds)),
              fun hi _ hw => hmoves.shifted (hcut (hi' hi) hw)⟩
          dsimp only
          rcases hack : (u.updateTimestamp seg).acknowledge seg with ⟨w, going⟩
          rw [hack] at hend hacked
          cases going with
          | false => exact hend (.same (Same.closedown w _))
          | true =>
            have hsettled := (Same.establish w seg.isCtl).trans (Same.notifyWriteable _)
            exact hend ((Moves.same hsettled).trans ((hacked.same hsettled).receive seg))
      · rw [if_pos hrst]
        exact hdropped (hheard.trans (Same.closedown v _)) fun hh => hrst hh.2.2.1
  · rw [if_pos hconv]
    exact hdropped (Same.refl t) fun hh => hconv hh.1

theorem connect (h : Sending t) : Sending t.connect.1 ∧ (InPlace t → InPlace t.connect.1) := by
  rw [PseudoTcp.connect]
  by_cases hstate : t.state = .listen
  · rw [if_neg (not_not.2 hstate)]
    obtain ⟨hqueued, hplace, -, -⟩ := h.connectMessage hstate (s := .synSent) TcpState.noConfusion
    have hsent := hqueued.attemptSend .none
    dsimp only
    exact ⟨hsent.sending hqueued, fun hi => hsent.inPlace hqueued (hplace hi)⟩
  · rw [if_pos hstate]
    exact ⟨h, id⟩

theorem send (h : Sending t) (data : List UInt8) : Sending (t.send data).1 ∧ (InPlace t → InPlace (t.send data).1) := by
  rw [PseudoTcp.send]
  by_cases hstate : t.state = .established
  · rw [if_neg (not_not.2 hstate)]
    by_cases hfull : t.outgoing.sbuf.getWriteRemaining = 0
    · rw [if_pos hfull]
      have hsame : Same t { t with bWriteEnable := true } := .of_sender rfl
      exact ⟨h.same hsame, (Moves.same hsame).inPlace h⟩
    · rw [if_neg hfull]
      obtain ⟨hqueued, hplace⟩ := h.queued data false (by rw [hstate]; exact TcpState.noConfusion) nofun
      rcases hq : t.queue data false with ⟨u, written⟩
      rw [hq] at hqueued hplace
      have hsent := hqueued.attemptSend .none
      dsimp only
      exact ⟨hsent.sending hqueued, fun hi => hsent.inPlace hqueued (hplace hi)⟩
  · rw [if_pos hstate]
    exact ⟨h, id⟩

/-- **An operation.** -/
theorem perform (h : Sending t) (operation : Operation) : Sending (t.perform operation) ∧
    (InPlace t → t.Whole operation → InPlace (t.perform operation)) ∧
    (InPlace t → ¬ t.Whole operation → Shifted (t.perform operation)) := by
  have hmoves {u : PseudoTcp} (hm : Moves t u) : Sending u ∧ (InPlace t → True → InPlace u) ∧
      (InPlace t → ¬ True → Shifted u) :=
    ⟨hm.sending h, fun hi _ => hm.inPlace h hi, fun _ hfalse => absurd trivial hfalse⟩
  cases operation with
  | connect =>
    obtain ⟨hs, hplace⟩ := h.connect
    exact ⟨hs, fun hi _ => hplace hi, fun _ hfalse => absurd trivial hfalse⟩
  | send data =>
    obtain ⟨hs, hplace⟩ := h.send data
    exact ⟨hs, fun hi _ => hplace hi, fun _ hfalse => absurd trivial hfalse⟩
  | recv len => exact hmoves (h.recv len)
  | notifyClock now => exact hmoves (h.notifyClock now)
  | notifyPacket d =>
    rw [Whole, PseudoTcp.perform, PseudoTcp.notifyPacket]
    by_cases hlarge : d.bytes.length > maxPacket
    · rw [if_pos hlarge]
      exact ⟨h, fun hi _ => hi, fun _ hw => absurd (fun hle => absurd hle (Nat.not_le.2 hlarge)) hw⟩
    · rw [if_neg hlarge]
      obtain ⟨hs, hplace, hshifted⟩ := h.process d.segment
      refine ⟨hs, fun hi hw => hplace hi (hw (Nat.not_lt.1 hlarge)), fun hi hw => ?_⟩
      simp only [Classical.not_imp] at hw
      exact hshifted hi hw.2.1 hw.2.2

end Sending

/-! ## Runs -/

theorem sending_create (conv now : UInt32) : Sending (create conv now) where
  queue := ⟨rfl, Nat.zero_le _, (by decide : defaultSndBufSize < 4294967296), .nil,
    (by decide : ((0 : UInt32) - 0).toNat = 0), .nil, nofun⟩
  mss := mssOk_of_maximum (by decide : minPacket ∈ packetMaximums)
  advised := mssOk_of_maximum (by decide : 65535 ∈ packetMaximums)
  room := (by decide : 4 ≤ defaultSndBufSize)
  timer := fun h => absurd rfl h
  recover := Nat.zero_le _
  listening := fun _ => rfl

theorem call_spec {t : PseudoTcp} (h : Sending t) (c : Call) : Sending (t.call c).1 ∧
    (InPlace t → t.Whole c.operation → InPlace (t.call c).1) ∧
    (InPlace t → ¬ t.Whole c.operation → Shifted (t.call c).1) := by
  have hsame : Same t { t with env := { t.env with now := c.now, results := c.results } } := .of_sender rfl
  obtain ⟨hs, hplace, hshifted⟩ := (h.same hsame).perform c.operation
  have hi' := (Moves.same hsame).inPlace h
  have hwhole : ({ t with env := { t.env with now := c.now, results := c.results } } : PseudoTcp).Whole c.operation ↔
      t.Whole c.operation := by
    cases c.operation <;> exact Iff.rfl
  exact ⟨hs, fun hi hw => hplace (hi' hi) (hwhole.2 hw), fun hi hw => hshifted (hi' hi) (mt hwhole.1 hw)⟩

/-- **The queue tiles the send buffer** in all states of a run exactly when every ack that is new ends where a
segment ends. -/
theorem tiles_iff (conv now : UInt32) (calls : List Call) : Machine.Always call Tiles (create conv now) calls ↔
    Machine.Meets call (fun t c => t.Whole c.operation) (create conv now) calls := by
  refine Machine.always_iff_meets (P := fun t => Sending t ∧ InPlace t) (fun t ht => ht.2.tiles ht.1)
    (fun t c ht hw => ?_) (fun t c ht htiles => ?_) ⟨sending_create conv now, trivial, nofun⟩ calls
  · obtain ⟨hs, hplace, -⟩ := call_spec ht.1 c
    exact ⟨hs, hplace ht.2 hw⟩
  · obtain ⟨-, -, hshifted⟩ := call_spec ht.1 c
    by_contra hw
    exact (hshifted ht.2 hw).not_inPlace htiles.inPlace

/-- An ack of half the connect message, and then nothing more. -/
def halfAcked : List Call :=
  [⟨.connect, 1, []⟩,
    ⟨.notifyPacket ⟨Bytes.be32 7 ++ Bytes.be32 0 ++ Bytes.be32 2 ++ [0, 0, 1, 0] ++ Bytes.be32 2 ++
      Bytes.be32 0, by decide⟩,
      2, []⟩,
    ⟨.notifyClock 3002, 3002, []⟩]

/-- The other half is sent again from before the beginning of the buffer. -/
theorem not_tiles_halfAcked :
    ¬ ∀ conv now (calls : List Call), (calls.map fun c => c.operation.bytesSent).sum < 2 ^ 31 →
    Machine.Always call Tiles (create conv now) calls := by
  intro h
  obtain ⟨-, -, -, htiles⟩ := h 7 1 halfAcked (by decide)
  have hfault : Fault.packetData ∈ (Machine.run call (create 7 1) halfAcked).env.faults := by decide
  exact absurd (htiles.faults _ hfault) (by decide)

end WebRtc.Tcp
